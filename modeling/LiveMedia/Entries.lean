/-!
# Entries in ascending order

A finite map from numbers, kept as a list of pairs in ascending order. Maps of equal contents are
equal lists.
-/

namespace LiveMedia

/-- Values under numbers, in ascending order as long as entries are put in by `Entries.insert`. -/
abbrev Entries (α : Type) := List (Nat × α)

namespace Entries

variable {α : Type}

/-- Puts a value under a number and replaces the one that is there. -/
def insert (key : Nat) (value : α) : Entries α → Entries α
  | [] => [(key, value)]
  | (other, old) :: rest =>
    if key < other then (key, value) :: (other, old) :: rest
    else if key = other then (key, value) :: rest
    else (other, old) :: insert key value rest

/-- The value under a number. -/
def find? (key : Nat) : Entries α → Option α
  | [] => none
  | (other, value) :: rest => if other = key then some value else find? key rest

/-- Changes the value under a number, if there is one. -/
def modify (key : Nat) (f : α → α) : Entries α → Entries α
  | [] => []
  | (other, value) :: rest =>
    if other = key then (other, f value) :: rest else (other, value) :: modify key f rest

@[simp] theorem find?_insert_self (key : Nat) (value : α) (es : Entries α) :
    (es.insert key value).find? key = some value := by
  induction es with
  | nil => simp [insert, find?]
  | cons e rest ih =>
    obtain ⟨other, old⟩ := e
    simp only [insert]
    split
    · simp [find?]
    · split
      · simp [find?]
      · next h => simp [find?, Ne.symm h, ih]

theorem find?_insert_of_ne {key other : Nat} (h : other ≠ key) (value : α) (es : Entries α) :
    (es.insert key value).find? other = es.find? other := by
  induction es with
  | nil => simp [insert, find?, Ne.symm h]
  | cons e rest ih =>
    obtain ⟨k, old⟩ := e
    simp only [insert]
    split
    · simp [find?, Ne.symm h]
    · split
      · next hk => subst hk; simp [find?, Ne.symm h]
      · simp only [find?, ih]

end Entries

end LiveMedia
