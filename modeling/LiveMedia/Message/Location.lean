import LiveMedia.Wire.Primitive

/-!
# Locations

A location points at an object within a group. Both numbers are of the wide class.
-/

namespace LiveMedia.Message

open LiveMedia.Wire

/-- A place in a track, ordered by group and then by object. -/
structure Location where
  group : Nat
  object : Nat
deriving DecidableEq, Repr

namespace Location

/-- By the group first. -/
def compare (a b : Location) : Ordering :=
  (Ord.compare a.group b.group).then (Ord.compare a.object b.object)

/-- The group, then the object. -/
def encode (l : Location) : Encoded := do
  let group ← encodeWide l.group
  let object ← encodeWide l.object
  return group ++ object

def decode : Decoder Location := do
  let group ← decodeWide
  let object ← decodeWide
  pure ⟨group, object⟩

def codec : Codec Location := ⟨encode, decode⟩

end Location

end LiveMedia.Message
