/-!
# Paths

A path is a list of parts joined by a separator. Splitting undoes joining when no part holds the
separator.
-/

namespace LiveMedia.Text

/-- The parts between the separators; a text without one is a single part. -/
def splitAtChar (separator : Char) : List Char → List (List Char)
  | [] => [[]]
  | c :: cs =>
    if c = separator then [] :: splitAtChar separator cs
    else match splitAtChar separator cs with
      | [] => [[c]]
      | part :: parts => (c :: part) :: parts

/-- The parts with one separator between neighbours. -/
def joinWithChar (separator : Char) : List (List Char) → List Char
  | [] => []
  | [part] => part
  | part :: rest => part ++ separator :: joinWithChar separator rest

theorem splitAtChar_ne_nil (separator : Char) (cs : List Char) : splitAtChar separator cs ≠ [] := by
  cases cs with
  | nil => simp [splitAtChar]
  | cons c cs =>
    simp only [splitAtChar]
    split
    · simp
    · split <;> simp

/-- Joining the parts of a text gives the text. -/
@[simp] theorem joinWithChar_splitAtChar (separator : Char) (cs : List Char) :
    joinWithChar separator (splitAtChar separator cs) = cs := by
  induction cs with
  | nil => rfl
  | cons c cs ih =>
    simp only [splitAtChar]
    split
    · next h =>
      subst h
      cases hs : splitAtChar c cs with
      | nil => exact absurd hs (splitAtChar_ne_nil c cs)
      | cons part parts => rw [hs] at ih; simp [joinWithChar, ih]
    · next h =>
      cases hs : splitAtChar separator cs with
      | nil => exact absurd hs (splitAtChar_ne_nil separator cs)
      | cons part parts =>
        rw [hs] at ih
        cases parts with
        | nil => simpa [joinWithChar] using ih
        | cons next rest => simpa [joinWithChar] using ih

end LiveMedia.Text
