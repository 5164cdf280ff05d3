import LiveMedia.Wire.Primitive

/-!
# Group headers

A group travels on a stream of its own, which opens with a header. The header's type byte holds four
flags; one of them says whether a subgroup ID follows, and without it the subgroup is zero.
-/

namespace LiveMedia.Message

open LiveMedia.Wire

-- ── order of delivery ───────────────────────────────────────────────

/-- The order in which groups are delivered. -/
inductive GroupOrder where
  /-- The publisher's preference. -/
  | any
  | ascending
  | descending
deriving DecidableEq, Repr

namespace GroupOrder

def toOctet : GroupOrder → UInt8
  | any => 0
  | ascending => 1
  | descending => 2

def ofOctet? (b : UInt8) : Option GroupOrder :=
  if b = 0 then some any
  else if b = 1 then some ascending
  else if b = 2 then some descending
  else none

/-- The order in force when none is asked for. -/
def standard : GroupOrder := any

def encode (o : GroupOrder) : Encoded := encodeOctet o.toOctet

def decode : Decoder GroupOrder := do
  let b ← decodeOctet
  match ofOctet? b with
  | some o => pure o
  | none => .fail (.unknownType b.toNat)

def codec : Codec GroupOrder := ⟨encode, decode⟩

end GroupOrder

-- ── flags ───────────────────────────────────────────────────────────

/-- What the type byte of a group stream says. -/
structure GroupFlags where
  /-- Every object has a block of extension headers. -/
  hasExtensions : Bool
  /-- The subgroup ID is the ID of the first object. -/
  hasSubgroupObject : Bool
  /-- The header holds a subgroup ID. -/
  hasSubgroup : Bool
  /-- The group ends with its stream, without an object that says so. -/
  hasEnd : Bool
deriving DecidableEq, Repr

namespace GroupFlags

/-- The flags of a header that asks for nothing special. -/
def standard : GroupFlags := ⟨false, false, false, true⟩

/-- The type byte: 16 and one bit for each flag. -/
def typeId (f : GroupFlags) : Nat :=
  16 + f.hasExtensions.toNat + 2 * f.hasSubgroupObject.toNat + 4 * f.hasSubgroup.toNat +
    8 * f.hasEnd.toNat

def ofTypeId (id : Nat) : Except DecodeError GroupFlags :=
  if 16 ≤ id ∧ id ≤ 31 then
    .ok ⟨id.testBit 0, id.testBit 1, id.testBit 2, id.testBit 3⟩
  else .error (.unknownType id)

/-- The type byte tells all four flags. -/
@[simp] theorem ofTypeId_typeId (f : GroupFlags) : ofTypeId f.typeId = .ok f := by
  rcases f with ⟨_ | _, _ | _, _ | _, _ | _⟩ <;> rfl

end GroupFlags

-- ── header ──────────────────────────────────────────────────────────

/-- The opening of a group stream. -/
structure GroupHeader where
  flags : GroupFlags
  trackAlias : Nat
  groupId : Nat
  /-- Zero unless the flag for it is set. -/
  subGroupId : Nat
  publisherPriority : UInt8
deriving DecidableEq, Repr

namespace GroupHeader

def encode (h : GroupHeader) : Encoded :=
  if h.flags.hasSubgroup = false ∧ h.subGroupId ≠ 0 then .error .invalidSubgroup
  else do
    let type ← encodeCompact h.flags.typeId
    let trackAlias ← encodeWide h.trackAlias
    let groupId ← encodeCompact h.groupId
    let subGroupId ← if h.flags.hasSubgroup then encodeCompact h.subGroupId else .ok []
    let priority ← encodeOctet h.publisherPriority
    return type ++ (trackAlias ++ (groupId ++ (subGroupId ++ priority)))

def decode : Decoder GroupHeader := do
  let type ← decodeCompact
  match GroupFlags.ofTypeId type with
  | .error e => .fail e
  | .ok flags =>
    let trackAlias ← decodeWide
    let groupId ← decodeCompact
    let subGroupId ← if flags.hasSubgroup then decodeCompact else pure 0
    let priority ← decodeOctet
    pure ⟨flags, trackAlias, groupId, subGroupId, priority⟩

def codec : Codec GroupHeader := ⟨encode, decode⟩

end GroupHeader

end LiveMedia.Message
