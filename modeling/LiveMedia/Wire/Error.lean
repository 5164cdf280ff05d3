/-!
# What can be wrong with bytes on the wire

Reading and writing fail for different causes, so each direction has a type of its own. Only
`DecodeError.short` asks for more data; every other cause is final.
-/

namespace LiveMedia.Wire

/-- Why bytes could not be read as a value. -/
inductive DecodeError where
  /-- The value goes on after the last byte. -/
  | short
  /-- A sized body holds more bytes than its value. -/
  | long
  /-- A text is not UTF-8. -/
  | invalidString
  | invalidValue
  /-- A number lies outside the compact class. -/
  | boundsExceeded
  /-- A list announces more entries than it may have. -/
  | tooMany
  /-- Data stands where the stream had to end. -/
  | expectedEnd
  /-- A sized body ends inside its value. -/
  | expectedData
  | unknownType (id : Nat)
  | duplicateParameter (id : Nat)
  | unsupported
deriving DecidableEq, Repr

/-- Why a value has no wire form. -/
inductive EncodeError where
  | boundsExceeded
  | tooLarge (size : Nat)
  /-- A subgroup ID is given but the flag that carries it is not set. -/
  | invalidSubgroup
  /-- A parameter stands in the class that its ID's parity excludes. -/
  | invalidParameter (id : Nat)
deriving DecidableEq, Repr

/-- The lower-case hexadecimal digits of a number, without padding. -/
def hexadecimal (n : Nat) : String :=
  String.ofList (Nat.toDigits 16 n)

namespace DecodeError

/-- The bytes are wrong, and not merely incomplete. -/
def isMalformed (e : DecodeError) : Bool :=
  e != short

def message : DecodeError → String
  | short => "short buffer"
  | long => "long buffer"
  | invalidString => "invalid string"
  | invalidValue => "invalid value"
  | boundsExceeded => "bounds exceeded"
  | tooMany => "too many"
  | expectedEnd => "expected end"
  | expectedData => "expected data"
  | unknownType id => "unknown type: 0x" ++ hexadecimal id
  | duplicateParameter id => "duplicate parameter: " ++ toString id
  | unsupported => "unsupported"

end DecodeError

namespace EncodeError

def message : EncodeError → String
  | boundsExceeded => "bounds exceeded"
  | tooLarge size => "message too large: " ++ toString size ++ " bytes"
  | invalidSubgroup => "subgroup id requires the subgroup flag"
  | invalidParameter id => "invalid parameter: " ++ toString id

end EncodeError

end LiveMedia.Wire
