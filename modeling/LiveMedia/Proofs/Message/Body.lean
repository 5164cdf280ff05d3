import LiveMedia.Message.Fetch
import LiveMedia.Proofs.Wire.Primitive

/-!
# Fields and bodies

Reading undoes writing for the fields of messages, for group headers and for the bodies of the six
control messages. Each encoder is first shown to be its fields one after the other (`encode_eq`); what
is then said of it is read off the fields in the same order.

`Exceeds` is the predicate of the values that have no wire form. It names the fields that are too large
for their class, and nothing of how they are written.
-/

namespace LiveMedia.Message

open LiveMedia.Wire

-- ── namespaces ──────────────────────────────────────────────────────

namespace Namespace

/-- There are too many parts, or one of them is too long. -/
def Exceeds (ns : Namespace) : Prop :=
  partLimit < ns.parts.length ∨ ∃ part ∈ ns.parts, Varint.compactMaximum < part.utf8ByteSize

/-- The bytes of the count and of the parts. -/
def wireSize (ns : Namespace) : Nat :=
  Varint.size ⟨ns.parts.length⟩ + (ns.parts.map fun part => bytesSize part.utf8ByteSize).sum

theorem encode_eq (ns : Namespace) :
    ns.encode = if ns.parts.length ≤ partLimit
      then Encoded.append (encodeCompact ns.parts.length) (encodeAll encodeText ns.parts)
      else .error .boundsExceeded := rfl

theorem inverts (ns : Namespace) : Inverts decode ns ns.encode := by
  rw [encode_eq]
  refine inverts_ite fun h => (inverts_compact _).andThen ?_
  rw [if_pos h]
  exact (inverts_encodeAll inverts_text ns.parts).thenPure rfl

/-- A count too large for its class is above the limit already, so it needs no case of its own. -/
theorem fails_iff (ns : Namespace) : Fails ns.encode ↔ ns.Exceeds := by
  rw [encode_eq, fails_ite, fails_append, fails_compact, fails_encodeAll, Nat.not_le]
  simp only [fails_text]
  constructor
  · rintro (hmany | hcount | hlong)
    · exact Or.inl hmany
    · exact Or.inl (Nat.lt_trans (by decide) hcount)
    · exact Or.inr hlong
  · rintro (hmany | hlong)
    · exact Or.inl hmany
    · exact Or.inr (Or.inr hlong)

theorem sized (ns : Namespace) : Sized ns.encode ns.wireSize :=
  sized_ite fun _ => (sized_compact _).append (sized_encodeAll sized_text ns.parts)

end Namespace

-- ── small fields ────────────────────────────────────────────────────

namespace Location

/-- One of the two numbers is too large. -/
def Exceeds (l : Location) : Prop := Varint.maximum < l.group ∨ Varint.maximum < l.object

def wireSize (l : Location) : Nat := Varint.size ⟨l.group⟩ + Varint.size ⟨l.object⟩

theorem encode_eq (l : Location) :
    l.encode = Encoded.append (encodeWide l.group) (encodeWide l.object) := rfl

theorem inverts (l : Location) : Inverts decode l l.encode := by
  rw [encode_eq]
  exact (inverts_wide _).andThen ((inverts_wide _).thenPure rfl)

theorem fails_iff (l : Location) : Fails l.encode ↔ l.Exceeds := by
  rw [encode_eq, fails_append, fails_wide, fails_wide]
  rfl

theorem sized (l : Location) : Sized l.encode l.wireSize :=
  (sized_wide _).append (sized_wide _)

end Location

/-- The three orders have three different octets. -/
theorem GroupOrder.inverts (o : GroupOrder) : Inverts decode o o.encode := by
  refine (inverts_octet _).thenPure ?_
  cases o <;> rfl

/-- Every order has a wire form. -/
theorem GroupOrder.not_fails (o : GroupOrder) : ¬ Fails o.encode := not_fails_octet _

theorem GroupOrder.sized (o : GroupOrder) : Sized o.encode 1 := sized_octet _

theorem RequestId.inverts (id : RequestId) : Inverts decode id id.encode :=
  (inverts_wide id.val).thenPure rfl

theorem RequestId.fails_iff (id : RequestId) : Fails id.encode ↔ Varint.maximum < id.val :=
  fails_wide id.val

/-- The counters of requests are of the compact class, where the IDs themselves are of the wide one. -/
theorem inverts_counter (id : RequestId) : Inverts decodeCounter id (encodeCounter id) :=
  (inverts_compact id.val).thenPure rfl

/-- No parameters are the number zero. -/
theorem encode_empty : Parameters.empty.encode = .ok [0] := rfl

theorem inverts_empty : Inverts Parameters.decode Parameters.empty Parameters.empty.encode := by
  intro bs h rest
  obtain rfl := Except.ok.inj (encode_empty.symm.trans h)
  rfl

theorem not_fails_empty : ¬ Fails Parameters.empty.encode := not_fails_ok [0]

theorem sized_empty : Sized Parameters.empty.encode 1 := sized_ok [0]

-- ── group headers ───────────────────────────────────────────────────

/-- The sixteen types of groups are all of the compact class. -/
theorem GroupFlags.typeId_le (f : GroupFlags) : f.typeId ≤ Varint.compactMaximum := by
  rcases f with ⟨_ | _, _ | _, _ | _, _ | _⟩ <;> decide

namespace GroupHeader

/-- A subgroup stands where there is none, or a number is too large. -/
def Exceeds (h : GroupHeader) : Prop :=
  (h.flags.hasSubgroup = false ∧ h.subGroupId ≠ 0) ∨ Varint.maximum < h.trackAlias ∨
    Varint.compactMaximum < h.groupId ∨ Varint.compactMaximum < h.subGroupId

/-- The subgroup ID, where the flags say that there is one. -/
def encodeSubGroup (h : GroupHeader) : Encoded :=
  if h.flags.hasSubgroup then encodeCompact h.subGroupId else .ok []

/-- Unless a subgroup stands where there is none, a header is its fields one after the other. -/
theorem encode_eq {h : GroupHeader} (hsub : ¬ (h.flags.hasSubgroup = false ∧ h.subGroupId ≠ 0)) :
    h.encode = Encoded.append (encodeCompact h.flags.typeId) (Encoded.append
      (encodeWide h.trackAlias) (Encoded.append (encodeCompact h.groupId) (Encoded.append
        h.encodeSubGroup (encodeOctet h.publisherPriority)))) := by
  rw [encode, if_neg hsub, encodeSubGroup]
  cases h.flags.hasSubgroup with
  | true => simp only [if_pos, Encoded.append, bind_assoc, pure_bind]
  | false => simp only [Bool.false_eq_true, if_false, Encoded.append, bind_assoc, pure_bind]

theorem subGroupId_eq_zero {h : GroupHeader}
    (hsub : ¬ (h.flags.hasSubgroup = false ∧ h.subGroupId ≠ 0)) (hflag : h.flags.hasSubgroup = false) :
    h.subGroupId = 0 := Decidable.byContradiction fun hne => hsub ⟨hflag, hne⟩

/-- The field that may be missing is read back in front of what follows. A missing one is read as zero.
    -/
theorem inverts_subGroup {h : GroupHeader} {k : Nat → Decoder GroupHeader} {y : Encoded}
    (hsub : ¬ (h.flags.hasSubgroup = false ∧ h.subGroupId ≠ 0)) (hk : Inverts (k h.subGroupId) h y) :
    Inverts (if h.flags.hasSubgroup then decodeCompact >>= k else pure 0 >>= k) h
      (Encoded.append h.encodeSubGroup y) := by
  rw [encodeSubGroup]
  cases hflag : h.flags.hasSubgroup with
  | true => exact (inverts_compact _).andThen hk
  | false =>
      rw [subGroupId_eq_zero hsub hflag] at hk
      exact (inverts_nil 0).andThen hk

theorem inverts (h : GroupHeader) : Inverts decode h h.encode := by
  by_cases hsub : h.flags.hasSubgroup = false ∧ h.subGroupId ≠ 0
  · rw [encode, if_pos hsub]
    exact inverts_error _ _ _
  · rw [encode_eq hsub]
    refine (inverts_compact _).andThen ?_
    rw [GroupFlags.ofTypeId_typeId]
    exact (inverts_wide _).andThen ((inverts_compact _).andThen
      (inverts_subGroup hsub ((inverts_octet _).thenPure rfl)))

/-- A missing subgroup is zero and cannot be too large. -/
theorem fails_subGroup {h : GroupHeader} (hsub : ¬ (h.flags.hasSubgroup = false ∧ h.subGroupId ≠ 0)) :
    Fails h.encodeSubGroup ↔ Varint.compactMaximum < h.subGroupId := by
  rw [encodeSubGroup]
  cases hflag : h.flags.hasSubgroup with
  | true => exact fails_compact _
  | false =>
      rw [subGroupId_eq_zero hsub hflag]
      exact iff_of_false (not_fails_ok []) (Nat.not_lt_zero _)

theorem fails_iff (h : GroupHeader) : Fails h.encode ↔ h.Exceeds := by
  rw [Exceeds]
  by_cases hsub : h.flags.hasSubgroup = false ∧ h.subGroupId ≠ 0
  · rw [encode, if_pos hsub]
    exact iff_of_true ⟨_, rfl⟩ (Or.inl hsub)
  · rw [encode_eq hsub, or_iff_right hsub]
    simp only [fails_append, fails_compact, fails_wide, fails_subGroup hsub]
    rw [or_iff_right (Nat.not_lt_of_le h.flags.typeId_le), or_iff_left (not_fails_octet _)]

end GroupHeader

-- ── ranges ──────────────────────────────────────────────────────────

namespace FetchRange

/-- A field of the range is too large for its class. -/
def Exceeds : FetchRange → Prop
  | standalone space track start stop =>
    space.Exceeds ∨ Varint.compactMaximum < track.utf8ByteSize ∨ start.Exceeds ∨ stop.Exceeds
  | relativeJoining subscription groupOffset =>
    Varint.maximum < subscription.val ∨ Varint.compactMaximum < groupOffset
  | absoluteJoining subscription groupId =>
    Varint.maximum < subscription.val ∨ Varint.compactMaximum < groupId

/-- The bytes of the type, which is one byte in all three cases, and of the fields. -/
def wireSize : FetchRange → Nat
  | standalone space track start stop =>
    1 + (space.wireSize + (bytesSize track.utf8ByteSize + (start.wireSize + stop.wireSize)))
  | relativeJoining subscription groupOffset =>
    1 + (Varint.size ⟨subscription.val⟩ + Varint.size ⟨groupOffset⟩)
  | absoluteJoining subscription groupId =>
    1 + (Varint.size ⟨subscription.val⟩ + Varint.size ⟨groupId⟩)

theorem encode_standalone (space : Namespace) (track : String) (start stop : Location) :
    (standalone space track start stop).encode = Encoded.append (encodeCompact 1)
      (Encoded.append space.encode (Encoded.append (encodeText track)
        (Encoded.append start.encode stop.encode))) := by
  simp only [encode, Encoded.append, bind_assoc, pure_bind]

theorem encode_relativeJoining (subscription : RequestId) (groupOffset : Nat) :
    (relativeJoining subscription groupOffset).encode = Encoded.append (encodeCompact 2)
      (Encoded.append subscription.encode (encodeCompact groupOffset)) := by
  simp only [encode, Encoded.append, bind_assoc, pure_bind]

theorem encode_absoluteJoining (subscription : RequestId) (groupId : Nat) :
    (absoluteJoining subscription groupId).encode = Encoded.append (encodeCompact 3)
      (Encoded.append subscription.encode (encodeCompact groupId)) := by
  simp only [encode, Encoded.append, bind_assoc, pure_bind]

/-- The type that is written first tells the three cases apart. -/
theorem inverts (r : FetchRange) : Inverts decode r r.encode := by
  cases r with
  | standalone space track start stop =>
      rw [encode_standalone]
      exact (inverts_compact 1).andThen (space.inverts.andThen ((inverts_text track).andThen
        (start.inverts.andThen (stop.inverts.thenPure rfl))))
  | relativeJoining subscription groupOffset =>
      rw [encode_relativeJoining]
      exact (inverts_compact 2).andThen (subscription.inverts.andThen
        ((inverts_compact groupOffset).thenPure rfl))
  | absoluteJoining subscription groupId =>
      rw [encode_absoluteJoining]
      exact (inverts_compact 3).andThen (subscription.inverts.andThen
        ((inverts_compact groupId).thenPure rfl))

/-- A type is small enough for every class, so only the fields can fail. -/
theorem fails_iff (r : FetchRange) : Fails r.encode ↔ r.Exceeds := by
  have hsmall : ∀ n, n ≤ 3 → ¬ Fails (encodeCompact n) := by
    intro n hn
    rw [fails_compact]
    exact Nat.not_lt_of_le (Nat.le_trans hn (by decide))
  cases r with
  | standalone space track start stop =>
      rw [encode_standalone, fails_append, or_iff_right (hsmall 1 (by decide))]
      simp only [fails_append, Namespace.fails_iff, fails_text, Location.fails_iff]
      rfl
  | relativeJoining subscription groupOffset =>
      rw [encode_relativeJoining, fails_append, or_iff_right (hsmall 2 (by decide)), fails_append,
        fails_compact, RequestId.fails_iff]
      rfl
  | absoluteJoining subscription groupId =>
      rw [encode_absoluteJoining, fails_append, or_iff_right (hsmall 3 (by decide)), fails_append,
        fails_compact, RequestId.fails_iff]
      rfl

theorem sized (r : FetchRange) : Sized r.encode r.wireSize := by
  cases r with
  | standalone space track start stop =>
      rw [encode_standalone]
      exact (sized_compact 1).append (space.sized.append ((sized_text track).append
        (start.sized.append stop.sized)))
  | relativeJoining subscription groupOffset =>
      rw [encode_relativeJoining]
      exact (sized_compact 2).append ((sized_wide _).append (sized_compact _))
  | absoluteJoining subscription groupId =>
      rw [encode_absoluteJoining]
      exact (sized_compact 3).append ((sized_wide _).append (sized_compact _))

end FetchRange

-- ── bodies ──────────────────────────────────────────────────────────

/-- What a kind of message is like on the wire: reading its body undoes writing it, the values without
    a body are those that exceed a class, and a body has a known size. -/
structure Described {α : Type} (encodeBody : α → Encoded) (decodeBody : Decoder α)
    (exceeds : α → Prop) (bodySize : α → Nat) : Prop where
  inverts : ∀ a, Inverts decodeBody a (encodeBody a)
  fails_iff : ∀ a, Fails (encodeBody a) ↔ exceeds a
  sized : ∀ a, Sized (encodeBody a) (bodySize a)

namespace Fetch

/-- The ID or the range is too large. The priority, the order and the empty parameters never are. -/
def Exceeds (m : Fetch) : Prop := Varint.maximum < m.requestId.val ∨ m.range.Exceeds

/-- The bytes of the ID, of the priority, of the order, of the range and of no parameters. -/
def bodySize (m : Fetch) : Nat := Varint.size ⟨m.requestId.val⟩ + (1 + (1 + (m.range.wireSize + 1)))

theorem encodeBody_eq (m : Fetch) :
    m.encodeBody = Encoded.append m.requestId.encode (Encoded.append
      (encodeOctet m.subscriberPriority) (Encoded.append m.groupOrder.encode
        (Encoded.append m.range.encode Parameters.empty.encode))) := by
  simp only [encodeBody, Encoded.append, bind_assoc, pure_bind]

/-- A request for a range of groups. -/
theorem described : Described encodeBody decodeBody Exceeds bodySize where
  inverts m := by
    rw [encodeBody_eq]
    exact m.requestId.inverts.andThen ((inverts_octet _).andThen (m.groupOrder.inverts.andThen
      (m.range.inverts.andThen (inverts_empty.thenPure rfl))))
  fails_iff m := by
    rw [encodeBody_eq, fails_append, fails_append, or_iff_right (not_fails_octet _), fails_append,
      or_iff_right m.groupOrder.not_fails, fails_append, or_iff_left not_fails_empty,
      FetchRange.fails_iff, RequestId.fails_iff]
    rfl
  sized m := by
    rw [encodeBody_eq]
    exact (sized_wide _).append ((sized_octet _).append (m.groupOrder.sized.append
      (m.range.sized.append sized_empty)))

end Fetch

namespace FetchOk

/-- The ID or a number of the last location is too large. -/
def Exceeds (m : FetchOk) : Prop := Varint.maximum < m.requestId.val ∨ m.endLocation.Exceeds

def bodySize (m : FetchOk) : Nat :=
  Varint.size ⟨m.requestId.val⟩ + (1 + (1 + (m.endLocation.wireSize + 1)))

theorem encodeBody_eq (m : FetchOk) :
    m.encodeBody = Encoded.append m.requestId.encode (Encoded.append m.groupOrder.encode
      (Encoded.append (encodeFlag m.endOfTrack) (Encoded.append m.endLocation.encode
        Parameters.empty.encode))) := by
  simp only [encodeBody, Encoded.append, bind_assoc, pure_bind]

/-- The acceptance of such a request. -/
theorem described : Described encodeBody decodeBody Exceeds bodySize where
  inverts m := by
    rw [encodeBody_eq]
    exact m.requestId.inverts.andThen (m.groupOrder.inverts.andThen ((inverts_flag _).andThen
      (m.endLocation.inverts.andThen (inverts_empty.thenPure rfl))))
  fails_iff m := by
    rw [encodeBody_eq, fails_append, fails_append, or_iff_right m.groupOrder.not_fails, fails_append,
      or_iff_right (not_fails_flag _), fails_append, or_iff_left not_fails_empty,
      Location.fails_iff, RequestId.fails_iff]
    rfl
  sized m := by
    rw [encodeBody_eq]
    exact (sized_wide _).append (m.groupOrder.sized.append ((sized_flag _).append
      (m.endLocation.sized.append sized_empty)))

end FetchOk

namespace FetchError

/-- The ID, the code or the length of the reason is too large. -/
def Exceeds (m : FetchError) : Prop :=
  Varint.maximum < m.requestId.val ∨ Varint.compactMaximum < m.errorCode ∨
    Varint.compactMaximum < m.reason.utf8ByteSize

def bodySize (m : FetchError) : Nat :=
  Varint.size ⟨m.requestId.val⟩ + (Varint.size ⟨m.errorCode⟩ + bytesSize m.reason.utf8ByteSize)

theorem encodeBody_eq (m : FetchError) :
    m.encodeBody = Encoded.append m.requestId.encode
      (Encoded.append (encodeCompact m.errorCode) (encodeText m.reason)) := by
  simp only [encodeBody, Encoded.append, bind_assoc, pure_bind]

/-- The refusal of such a request, with a reason in words. -/
theorem described : Described encodeBody decodeBody Exceeds bodySize where
  inverts m := by
    rw [encodeBody_eq]
    exact m.requestId.inverts.andThen ((inverts_compact _).andThen
      ((inverts_text _).thenPure rfl))
  fails_iff m := by
    rw [encodeBody_eq, fails_append, fails_append, fails_compact, fails_text, RequestId.fails_iff]
    rfl
  sized m := by
    rw [encodeBody_eq]
    exact (sized_wide _).append ((sized_compact _).append (sized_text _))

end FetchError

namespace FetchCancel

def Exceeds (m : FetchCancel) : Prop := Varint.maximum < m.requestId.val

def bodySize (m : FetchCancel) : Nat := Varint.size ⟨m.requestId.val⟩

/-- A cancelled request is its ID alone. -/
theorem described : Described encodeBody decodeBody Exceeds bodySize where
  inverts m := m.requestId.inverts.thenPure rfl
  fails_iff m := fails_wide m.requestId.val
  sized m := sized_wide m.requestId.val

end FetchCancel

namespace MaxRequestId

/-- Unlike other IDs, the limit on requests is of the compact class. -/
def Exceeds (m : MaxRequestId) : Prop := Varint.compactMaximum < m.requestId.val

def bodySize (m : MaxRequestId) : Nat := Varint.size ⟨m.requestId.val⟩

/-- A new limit on requests is one counter. -/
theorem described : Described encodeBody decodeBody Exceeds bodySize where
  inverts m := (inverts_counter m.requestId).thenPure rfl
  fails_iff m := fails_compact m.requestId.val
  sized m := sized_compact m.requestId.val

end MaxRequestId

namespace RequestsBlocked

/-- The limit that is told is of the compact class too. -/
def Exceeds (m : RequestsBlocked) : Prop := Varint.compactMaximum < m.requestId.val

def bodySize (m : RequestsBlocked) : Nat := Varint.size ⟨m.requestId.val⟩

/-- The limit that blocks the sender is one counter. -/
theorem described : Described encodeBody decodeBody Exceeds bodySize where
  inverts m := (inverts_counter m.requestId).thenPure rfl
  fails_iff m := fails_compact m.requestId.val
  sized m := sized_compact m.requestId.val

end RequestsBlocked

end LiveMedia.Message
