import LiveMedia.Live.Store
import LiveMedia.Playback.MediaFrame

/-!
# Publishing media

A publisher writes frames to a track. A keyframe ends the current group and begins the next one, so
frames before the first keyframe have no place and are refused. The size of a frame is the sum of its
parts, which is taken when there is a group for it: `writeCounted?` says when the sum leaves its word, and
`write?` is the same for frames whose bytes can be counted.
-/

namespace LiveMedia.Playback

open LiveMedia.Wire LiveMedia.Live

structure Publisher where
  track : TrackWriter
  /-- The group that frames go to. -/
  current : Option GroupWriter
deriving DecidableEq, Repr

namespace Publisher

/-- A publisher that has written nothing. -/
def start (track : TrackWriter) : Publisher := ⟨track, none⟩

/-- Writes a frame at the end of a group. -/
def writeTo (store : Store) (group : GroupWriter) (f : MediaFrame) : Except MediaError Store :=
  (store.writeFrame group f.chunks).mapError .transport

/-- Ends the current group, if there is one. The publisher has none afterwards, also when that
fails. -/
def endGroup (p : Publisher) (store : Store) : Except MediaError Store × Publisher :=
  match p.current with
  | some group => ((store.closeGroup group).mapError .transport, { p with current := none })
  | none => (.ok store, p)

/-- Begins the next group; `none` when the track has no next sequence number. -/
def beginGroup? (p : Publisher) (store : Store) :
    Option (Except MediaError Store × Publisher) :=
  match store.appendGroup? p.track with
  | none => none
  | some (.ok (group, store)) => some (.ok store, { p with current := some group })
  | some (.error e) => some (.error (.transport e), p)

/-- Writes a frame into the current group. -/
def writeCurrent (p : Publisher) (store : Store) (f : MediaFrame) : Except MediaError Store :=
  match p.current with
  | some group => writeTo store group f
  | none => .error .missingKeyframe

/-- Writes a frame; `none` when a keyframe finds no next sequence number. An answer that is an error
stands for the store as it was before the step that failed. -/
def write? (p : Publisher) (store : Store) (f : MediaFrame) :
    Option (Except MediaError Unit × Publisher × Store) :=
  if f.keyframe then
    match p.endGroup store with
    | (.error e, p) => some (.error e, p, store)
    | (.ok store, p) => match p.beginGroup? store with
      | none => none
      | some (.error e, p) => some (.error e, p, store)
      | some (.ok store, p) => match p.writeCurrent store f with
        | .ok store => some (.ok (), p, store)
        | .error e => some (.error e, p, store)
  else match p.writeCurrent store f with
    | .ok store => some (.ok (), p, store)
    | .error e => some (.error e, p, store)

/-- Writes a frame; `none` also when it has a group and its bytes cannot be counted. -/
def writeCounted? (p : Publisher) (store : Store) (f : MediaFrame) :
    Option (Except MediaError Unit × Publisher × Store) :=
  match p.write? store f with
  | none => none
  | some (result, p, store) =>
    -- a publisher that has a group afterwards had one for this frame
    if p.current.isSome && !f.isCountable then none else some (result, p, store)

/-- Ends the current group and then the track. -/
def close (p : Publisher) (store : Store) : Except MediaError Unit × Publisher × Store :=
  match p.endGroup store with
  | (.error e, p) => (.error e, p, store)
  | (.ok store, p) => match store.closeTrack p.track with
    | .ok store => (.ok (), p, store)
    | .error e => (.error (.transport e), p, store)

end Publisher

end LiveMedia.Playback
