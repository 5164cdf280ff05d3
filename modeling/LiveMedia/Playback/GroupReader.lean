import LiveMedia.Live.Holding
import LiveMedia.Playback.MediaFrame

/-!
# Reading the media of one group

The first frame that is read from a group is its keyframe. A frame that holds no media is an error and
does not count.
-/

namespace LiveMedia.Playback

open LiveMedia.Wire LiveMedia.Live

structure GroupReader where
  cursor : GroupCursor
  /-- The number of frames that were read. -/
  count : Nat
deriving DecidableEq, Repr

namespace GroupReader

/-- A reader that continues from a cursor. -/
def start (cursor : GroupCursor) : GroupReader := ⟨cursor, 0⟩

/-- The next frame, or `none` at the end of the group. -/
def readFrame (store : Store) (held : Holdings) (r : GroupReader) :
    Attempt MediaError (Option MediaFrame) × GroupReader :=
  match store.readFrame held r.cursor with
  | (.ok (some bs), cursor) => match MediaFrame.decode bs (r.count == 0) with
    | .ok f => (.ok (some f), ⟨cursor, r.count + 1⟩)
    | .error e => (.failure (.decode e), { r with cursor })
  | (.ok none, cursor) => (.ok none, { r with cursor })
  | (.error .pending, cursor) => (.pending, { r with cursor })
  | (.error (.failed e), cursor) => (.failure (.transport e), { r with cursor })

end GroupReader

end LiveMedia.Playback
