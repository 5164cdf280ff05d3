import LiveMedia.Stored.Document

/-!
# Stored forms

A form says how a kind of value is written as a JSON document and which documents are read as one.
Records are written as objects; they are read from objects in any order of the members, and from
lists of the fields in the order of writing.
-/

namespace LiveMedia.Stored

/-- How values are written and read. -/
structure Form (α : Type) where
  /-- The compact document of a value. -/
  write : α → String
  read : Json → Option α

/-- The value of a document, if it is one of the form. -/
def Form.ofText? {α : Type} (f : Form α) (s : String) : Option α :=
  (Json.ofText? s).bind f.read

-- ── plain values ────────────────────────────────────────────────────

/-- A whole number below a limit. -/
def natBelow (limit : Nat) : Form Nat where
  write := toString
  read
    | .number (some n) => if n < limit then some n else none
    | _ => none

def word64 : Form Nat := natBelow (1 <<< 64)

def word32 : Form Nat := natBelow (1 <<< 32)

def octet : Form UInt8 where
  write b := toString b.toNat
  read j := ((natBelow (1 <<< 8)).read j).map UInt8.ofNat

def flag : Form Bool where
  write b := if b then "true" else "false"
  read
    | .flag b => some b
    | _ => none

def text : Form String where
  write := quoted
  read
    | .text s => s
    | _ => none

def listOf {α : Type} (f : Form α) : Form (List α) where
  write xs := bracketed (xs.map f.write)
  read
    | .list items => items.mapM f.read
    | _ => none

/-- The form of a value that is stored as another. -/
def Form.via {α β : Type} (f : Form α) (toStored : β → α) (ofStored : α → Option β) : Form β where
  write b := f.write (toStored b)
  read j := (f.read j).bind ofStored

-- ── records ─────────────────────────────────────────────────────────

/-- The member of a name. A name that stands twice is refused. -/
def member? (name : String) (members : List (Option String × Json)) : Option (Option Json) :=
  match members.filter fun (key, _) => key == some name with
  | [] => some none
  | [(_, j)] => some (some j)
  | _ => none

/-- What a record gives for each of its fields. Members of other names are left out. -/
def fields? (names : List String) : Json → Option (List (Option Json))
  | .list items =>
    if items.length ≤ names.length then
      some (items.map some ++ List.replicate (names.length - items.length) none)
    else none
  | .object members =>
    if members.all fun (key, _) => key.isSome then
      names.mapM fun name => member? name members
    else none
  | _ => none

/-- The value of a field that has to be there. -/
def Form.required {α : Type} (f : Form α) (field : Option Json) : Option α := field.bind f.read

/-- The value of a field, or its standard value. -/
def Form.orStandard {α : Type} (f : Form α) (standard : α) : Option Json → Option α
  | none => some standard
  | some j => f.read j

end LiveMedia.Stored
