/-!
# JSON values

What a JSON document holds, as far as stored values need it: of numbers only those matter that are
written as plain digits, so that a whole number is one that is spelled as one. A text whose escapes
leave half of a surrogate pair is well formed but names no text.
-/

namespace LiveMedia.Stored

inductive Json where
  | null
  | flag (b : Bool)
  /-- A number; it is whole if it is written in digits alone. -/
  | number (whole : Option Nat)
  /-- A text, if its escapes make one. -/
  | text (content : Option String)
  | list (items : List Json)
  /-- Members in the order of the document. -/
  | object (members : List (Option String × Json))
deriving Repr

-- ── writing ─────────────────────────────────────────────────────────

/-- A hexadecimal escape for a character below the blank. -/
def controlEscape (c : Char) : List Char :=
  ['\\', 'u', '0', '0', Nat.digitChar (c.toNat / 16), Nat.digitChar (c.toNat % 16)]

/-- How a character stands between quotation marks. -/
def escaped (c : Char) : List Char :=
  if c = '"' then ['\\', '"']
  else if c = '\\' then ['\\', '\\']
  else if c = '\n' then ['\\', 'n']
  else if c = '\r' then ['\\', 'r']
  else if c = '\t' then ['\\', 't']
  else if c = '\x08' then ['\\', 'b']
  else if c = '\x0c' then ['\\', 'f']
  else if c.toNat < 0x20 then controlEscape c
  else [c]

/-- A text between quotation marks. -/
def quoted (s : String) : String :=
  String.ofList ('"' :: (s.toList.flatMap escaped ++ ['"']))

/-- A list of written values, without blanks. -/
def bracketed (values : List String) : String :=
  "[" ++ ",".intercalate values ++ "]"

/-- An object of names and written values, without blanks. -/
def braced (members : List (String × String)) : String :=
  "\x7b" ++ ",".intercalate (members.map fun (name, value) => quoted name ++ ":" ++ value) ++ "\x7d"

end LiveMedia.Stored
