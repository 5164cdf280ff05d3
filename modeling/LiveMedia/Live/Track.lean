import LiveMedia.Live.Group

/-!
# Tracks

A track announces its groups in the order in which they are created and keeps the latest of them. A
reader remembers the sequence numbers it was given, so it is not given one of them again while it
remembers; it forgets numbers that left the window once it remembers more than two windows full.
-/

namespace LiveMedia.Live

/-- Identifies a track in its store. -/
abbrev TrackId := Nat

/-- What a subscriber knows of a track. -/
structure TrackInfo where
  name : String
  priority : UInt8
deriving DecidableEq, Repr

/-- A group as its track knows it. -/
structure GroupEntry where
  group : GroupId
  sequence : Nat
deriving DecidableEq, Repr

structure Track where
  /-- The latest groups, in order of creation. -/
  retained : List GroupEntry
  /-- The largest sequence number so far. -/
  largest : Option Nat
  ending : Option Ending
deriving DecidableEq, Repr

namespace Track

/-- The number of groups that are kept for readers. -/
def window : Nat := 32

/-- Sequence numbers are below this number. -/
def sequenceLimit : Nat := 1 <<< 64

def fresh : Track := ⟨[], none, none⟩

/-- A group with this sequence number is kept. -/
def retains (t : Track) (sequence : Nat) : Bool :=
  t.retained.any fun entry => entry.sequence == sequence

def checkOpen (t : Track) : Except TransportError Unit :=
  match t.ending with
  | some ending => .error ending.refusal
  | none => .ok ()

/-- The last entries of a list, as many as the window holds. -/
def latest (entries : List GroupEntry) : List GroupEntry :=
  entries.drop (entries.length - window)

/-- Announces a group unless the track has ended or keeps a group of the same number. -/
def insert (entry : GroupEntry) (t : Track) : Except TransportError Track := do
  t.checkOpen
  if t.retains entry.sequence then .error .duplicate
  else .ok { t with
    retained := latest (t.retained ++ [entry])
    largest := some (max entry.sequence (t.largest.getD entry.sequence)) }

/-- The number after the largest, if there is one; the first is zero. -/
def nextSequence? (t : Track) : Option Nat :=
  match t.largest with
  | none => some 0
  | some n => if n + 1 < sequenceLimit then some (n + 1) else none

def close (t : Track) : Except TransportError Track := do
  t.checkOpen
  return { t with ending := some .complete }

/-- Ends the track with an error, whatever its state. -/
def abort (e : TransportError) (t : Track) : Track := { t with ending := some (.aborted e) }

/-- A reader's memory, without what left the window once there is too much of it. -/
def forget (t : Track) (seen : List Nat) : List Nat :=
  if 2 * window < seen.length then seen.filter t.retains else seen

/-- The first group that a reader has not seen, with the reader's memory afterwards. A track that was
aborted gives its error even if there are unseen groups. -/
def nextGroup (seen : List Nat) (t : Track) :
    Attempt TransportError (Option GroupEntry) × List Nat :=
  match t.ending with
  | some (.aborted e) => (.failure e, seen)
  | ending =>
    if ending.isNone && t.retained.all (fun entry => seen.contains entry.sequence) then
      (.pending, seen)
    else
      let seen := t.forget seen
      match t.retained.find? fun entry => !seen.contains entry.sequence with
      | some entry => (.ok (some entry), seen ++ [entry.sequence])
      | none => (.ok none, seen)

/-- How the track ended, once it has. -/
def outcome (t : Track) : Attempt TransportError Unit :=
  match t.ending with
  | some ending => ending.verdict
  | none => .pending

end Track

end LiveMedia.Live
