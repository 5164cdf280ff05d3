import LiveMedia.Stored.Json

/-!
# JSON documents

Reading the text of a document: one value with blanks around it and nothing else. Each reader takes
characters from the front and gives what is left. Every second step takes a character and the closing
brackets make up for the others, so one step more than there are characters is enough.
-/

namespace LiveMedia.Stored

/-- A reader's value with the characters that are left, or nothing if the text is not well formed. -/
abbrev Reading (α : Type) := Option (α × List Char)

/-- A blank between the parts of a document. -/
def isGap (c : Char) : Bool := c == ' ' || c == '\n' || c == '\t' || c == '\r'

def skipGaps (cs : List Char) : List Char := cs.dropWhile isGap

/-- Takes an expected word from the front. -/
def afterWord? (word : String) (cs : List Char) : Option (List Char) :=
  if word.toList.isPrefixOf cs then some (cs.drop word.length) else none

-- ── numbers ─────────────────────────────────────────────────────────

/-- The number that decimal digits spell. -/
def ofDigits (ds : List Char) : Nat :=
  ds.foldl (fun n c => n * 10 + (c.toNat - '0'.toNat)) 0

/-- One digit or more. -/
def readDigits (cs : List Char) : Reading (List Char) :=
  let digits := cs.takeWhile Char.isDigit
  if digits.isEmpty then none else some (digits, cs.dropWhile Char.isDigit)

/-- The digits of a whole part, which has no zero in front. -/
def readWhole (cs : List Char) : Reading Nat :=
  match readDigits cs with
  | some (digits, rest) =>
    if digits.head? = some '0' && 1 < digits.length then none else some (ofDigits digits, rest)
  | none => none

/-- The fraction and the exponent behind a whole part. -/
inductive Tail where
  | absent
  | present
deriving DecidableEq, Repr

def readFraction : List Char → Reading Tail
  | '.' :: cs => (readDigits cs).map fun (_, rest) => (.present, rest)
  | cs => some (.absent, cs)

def readExponent : List Char → Reading Tail
  | [] => some (.absent, [])
  | c :: cs =>
    if c = 'e' ∨ c = 'E' then
      let digits := match cs with
        | '+' :: ds | '-' :: ds => ds
        | ds => ds
      (readDigits digits).map fun (_, rest) => (.present, rest)
    else some (.absent, c :: cs)

/-- A number without its sign. -/
def readMagnitude (cs : List Char) : Option (Option Nat × List Char) := do
  let (n, cs) ← readWhole cs
  let (fraction, cs) ← readFraction cs
  let (exponent, cs) ← readExponent cs
  return (if fraction = .absent ∧ exponent = .absent then some n else none, cs)

def readNumber : List Char → Reading Json
  | '-' :: cs => (readMagnitude cs).map fun (_, rest) => (.number none, rest)
  | cs => (readMagnitude cs).map fun (n, rest) => (.number n, rest)

-- ── texts ───────────────────────────────────────────────────────────

/-- A piece of a text: a character, or a sixteen-bit unit that an escape names. -/
inductive Piece where
  | char (c : Char)
  | unit (n : Nat)
deriving DecidableEq, Repr

/-- The characters of a text, if every half of a surrogate pair stands with its other half. -/
def join : List Piece → Option (List Char)
  | [] => some []
  | .char c :: rest => (join rest).map (c :: ·)
  | .unit n :: rest =>
    if n < 0xd800 ∨ 0xdfff < n then (join rest).map (Char.ofNat n :: ·)
    else match rest with
      | .unit m :: rest =>
        if n < 0xdc00 ∧ 0xdc00 ≤ m ∧ m ≤ 0xdfff then
          (join rest).map (Char.ofNat (0x10000 + (n - 0xd800) * 0x400 + (m - 0xdc00)) :: ·)
        else none
      | _ => none

/-- The value of a hexadecimal digit. -/
def hexDigit? (c : Char) : Option Nat :=
  if c.isDigit then some (c.toNat - '0'.toNat)
  else if 'a' ≤ c ∧ c ≤ 'f' then some (c.toNat - 'a'.toNat + 10)
  else if 'A' ≤ c ∧ c ≤ 'F' then some (c.toNat - 'A'.toNat + 10)
  else none

/-- The character that a short escape names. -/
def shortEscape? : Char → Option Char
  | '"' => some '"'
  | '\\' => some '\\'
  | '/' => some '/'
  | 'b' => some '\x08'
  | 'f' => some '\x0c'
  | 'n' => some '\n'
  | 'r' => some '\r'
  | 't' => some '\t'
  | _ => none

/-- The pieces up to the closing quotation mark. -/
def readPieces : List Char → Reading (List Piece)
  | '"' :: rest => some ([], rest)
  | '\\' :: 'u' :: a :: b :: c :: d :: rest =>
    match hexDigit? a, hexDigit? b, hexDigit? c, hexDigit? d with
    | some a, some b, some c, some d =>
      (readPieces rest).map fun (ps, rest) => (.unit (((a * 16 + b) * 16 + c) * 16 + d) :: ps, rest)
    | _, _, _, _ => none
  | '\\' :: c :: rest =>
    match shortEscape? c with
    | some c => (readPieces rest).map fun (ps, rest) => (.char c :: ps, rest)
    | none => none
  | c :: rest =>
    if c.toNat < 0x20 ∨ c = '\\' then none
    else (readPieces rest).map fun (ps, rest) => (.char c :: ps, rest)
  | [] => none

/-- A text behind its opening quotation mark. -/
def readText (cs : List Char) : Reading (Option String) :=
  (readPieces cs).map fun (ps, rest) => ((join ps).map String.ofList, rest)

-- ── values ──────────────────────────────────────────────────────────

mutual

/-- A value; the first argument bounds the steps. -/
def readValue : Nat → List Char → Reading Json
  | 0, _ => none
  | level + 1, cs =>
    match skipGaps cs with
    | '[' :: rest =>
      match skipGaps rest with
      | ']' :: rest => some (.list [], rest)
      | rest => (readItems level rest).map fun (items, rest) => (.list items, rest)
    | '\x7b' :: rest =>
      match skipGaps rest with
      | '\x7d' :: rest => some (.object [], rest)
      | rest => (readMembers level rest).map fun (members, rest) => (.object members, rest)
    | '"' :: rest => (readText rest).map fun (s, rest) => (.text s, rest)
    | 'n' :: rest => (afterWord? "ull" rest).map fun rest => (.null, rest)
    | 't' :: rest => (afterWord? "rue" rest).map fun rest => (.flag true, rest)
    | 'f' :: rest => (afterWord? "alse" rest).map fun rest => (.flag false, rest)
    | rest => readNumber rest

/-- The items of a list and its closing bracket. -/
def readItems : Nat → List Char → Reading (List Json)
  | 0, _ => none
  | level + 1, cs =>
    match readValue level cs with
    | none => none
    | some (item, rest) =>
      match skipGaps rest with
      | ']' :: rest => some ([item], rest)
      | ',' :: rest => (readItems level rest).map fun (items, rest) => (item :: items, rest)
      | _ => none

/-- The members of an object and its closing brace. -/
def readMembers : Nat → List Char → Reading (List (Option String × Json))
  | 0, _ => none
  | level + 1, cs =>
    match skipGaps cs with
    | '"' :: rest =>
      match readText rest with
      | none => none
      | some (key, rest) =>
        match skipGaps rest with
        | ':' :: rest =>
          match readValue level rest with
          | none => none
          | some (value, rest) =>
            match skipGaps rest with
            | '\x7d' :: rest => some ([(key, value)], rest)
            | ',' :: rest =>
              (readMembers level rest).map fun (members, rest) => ((key, value) :: members, rest)
            | _ => none
        | _ => none
    | _ => none

end

/-- The value of a document. -/
def Json.ofText? (s : String) : Option Json :=
  match readValue (s.toList.length + 1) s.toList with
  | some (j, rest) => if (skipGaps rest).isEmpty then some j else none
  | none => none

end LiveMedia.Stored
