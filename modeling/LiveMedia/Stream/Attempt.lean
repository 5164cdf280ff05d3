/-!
# Attempts

A call that may have to wait is tried once and gives an attempt: a value, an error, or the word that it
is pending. A pending call has changed nothing but what its own description says, and is tried again
later.
-/

namespace LiveMedia

/-- Why an attempt gave no value. -/
inductive Halt (ε : Type) where
  | failed (e : ε)
  | pending
deriving DecidableEq, Repr

/-- What one try of a call gives. -/
abbrev Attempt (ε α : Type) := Except (Halt ε) α

namespace Attempt

variable {ε α : Type}

def value (a : α) : Attempt ε α := .ok a

def failure (e : ε) : Attempt ε α := .error (.failed e)

def pending : Attempt ε α := .error .pending

def isPending : Attempt ε α → Bool
  | .error .pending => true
  | _ => false

/-- A call that cannot fail to decide. -/
def ofExcept : Except ε α → Attempt ε α
  | .ok a => value a
  | .error e => failure e

end Attempt

end LiveMedia
