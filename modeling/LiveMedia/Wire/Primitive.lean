import LiveMedia.Wire.Varint

/-!
# Flags, words, byte strings and texts

The forms that messages are made of. A byte string is its length in the compact class and then its
bytes; a text is the byte string of its UTF-8 form; an optional value is a flag and then the value.
-/

namespace LiveMedia.Wire

-- ── single bytes and words ──────────────────────────────────────────

def encodeOctet (b : UInt8) : Encoded :=
  .ok [b]

def decodeOctet : Decoder UInt8
  | [] => (.error .short, [])
  | b :: rest => (.ok b, rest)

def octet : Codec UInt8 := ⟨encodeOctet, decodeOctet⟩

/-- A flag is written as 1 or 0. -/
def encodeFlag (b : Bool) : Encoded :=
  encodeOctet (if b then 1 else 0)

/-- A flag is the byte 0 or 1 and no other. -/
def decodeFlag : Decoder Bool := do
  let b ← decodeOctet
  if b = 0 then pure false
  else if b = 1 then pure true
  else .fail .invalidValue

def flag : Codec Bool := ⟨encodeFlag, decodeFlag⟩

def encodeWord (w : UInt16) : Encoded :=
  .ok (bigEndian 2 w.toNat)

def decodeWord : Decoder UInt16 := do
  let bs ← Decoder.take 2
  pure (UInt16.ofNat (ofBigEndian bs))

/-- Two bytes in network order. -/
def word : Codec UInt16 := ⟨encodeWord, decodeWord⟩

-- ── byte strings and texts ──────────────────────────────────────────

/-- The length comes first, so a byte string whose length exceeds the compact class has no wire form. -/
def encodeBytes (bs : Bytes) : Encoded := do
  let length ← encodeCompact bs.length
  return length ++ bs

/-- A byte string that ends too early has consumed its length. -/
def decodeBytes : Decoder Bytes := do
  let length ← decodeCompact
  Decoder.take length

def bytes : Codec Bytes := ⟨encodeBytes, decodeBytes⟩

/-- The UTF-8 form of a text. -/
def utf8 (s : String) : Bytes :=
  s.toUTF8.data.toList

/-- The text whose UTF-8 form is given. -/
def ofUtf8? (bs : Bytes) : Option String :=
  String.fromUTF8? ⟨bs.toArray⟩

def encodeText (s : String) : Encoded :=
  encodeBytes (utf8 s)

/-- Bytes that are not UTF-8 are refused after they were consumed. -/
def decodeText : Decoder String := do
  let bs ← decodeBytes
  match ofUtf8? bs with
  | some s => pure s
  | none => .fail .invalidString

def text : Codec String := ⟨encodeText, decodeText⟩

-- ── optional values ─────────────────────────────────────────────────

variable {α : Type}

/-- A missing value is one flag. -/
def encodeOptional (encode : α → Encoded) : Option α → Encoded
  | none => encodeFlag false
  | some a => do
    let present ← encodeFlag true
    let value ← encode a
    return present ++ value

/-- The value is read only if the flag says that it is there. -/
def decodeOptional (decode : Decoder α) : Decoder (Option α) := do
  if ← decodeFlag then
    let a ← decode
    pure (some a)
  else
    pure none

def Codec.optional (c : Codec α) : Codec (Option α) :=
  ⟨encodeOptional c.encode, decodeOptional c.decode⟩

end LiveMedia.Wire
