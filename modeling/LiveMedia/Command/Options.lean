/-!
# Options on a command line

The words of a command line are read one after the other. An option stands in a word that begins with
two hyphens and takes its value from the same word, behind an equals sign, or from the next word. What
an option sets is settled when the next option is met or the words are used up, so a fault further on
may win over a bad value before it: a word that cannot be used at all is reported at once.
-/

namespace LiveMedia.Command

/-- Why a command line is not carried out. -/
inductive UsageError where
  /-- Help was asked for. -/
  | help
  /-- There is nothing on the line. -/
  | emptyLine
  | missingCommand
  | unknownCommand
  | unknownArgument
  /-- An option stands without its value. -/
  | missingValue
  | badValue
  /-- A value stands where none is taken. -/
  | needlessValue
  /-- An option is given twice. -/
  | repeatedOption
deriving DecidableEq, Repr

-- ── words ───────────────────────────────────────────────────────────

/-- What a word is by its hyphens. -/
inductive Word where
  /-- An option, with the value behind the equals sign if there is one. -/
  | option (name : String) (value : Option String)
  /-- Letters behind a single hyphen; there is at least one. -/
  | letters (first : Char)
  /-- Two hyphens alone: no options follow. -/
  | separator
  | plain (text : String)
deriving DecidableEq, Repr

/-- The text behind the first equals sign. -/
def valueOf (cs : List Char) : Option String :=
  match cs.dropWhile (· != '=') with
  | [] => none
  | _ :: value => some (String.ofList value)

def Word.ofString (s : String) : Word :=
  match s.toList with
  | ['-', '-'] => .separator
  | '-' :: '-' :: cs => .option (String.ofList (cs.takeWhile (· != '='))) (valueOf cs)
  | '-' :: first :: _ => .letters first
  | _ => .plain s

-- ── options ─────────────────────────────────────────────────────────

/-- An option of a command with settings of type `σ`. -/
structure Setting (σ : Type) where
  name : String
  /-- The settings with the value, if the value is a good one. -/
  set : String → σ → Option σ

/-- What was read so far. -/
structure Scan (σ : Type) where
  settings : σ
  /-- The names of the options that were settled. -/
  given : List String
  /-- An option that is not settled, with its value once there is one. -/
  pending : Option (Setting σ × Option String)

namespace Scan

variable {σ : Type}

def start (settings : σ) : Scan σ := ⟨settings, [], none⟩

/-- Gives an option its value. -/
def assign (o : Setting σ) (value : String) (s : Scan σ) : Except UsageError (Scan σ) :=
  if s.given.contains o.name then .error .repeatedOption
  else match o.set value s.settings with
    | some settings => .ok ⟨settings, s.given ++ [o.name], none⟩
    | none => .error .badValue

/-- Settles the option that is pending. -/
def settle (s : Scan σ) : Except UsageError (Scan σ) :=
  match s.pending with
  | none => .ok s
  | some (_, none) => .error .missingValue
  | some (o, some value) => assign o value { s with pending := none }

/-- An option that waits for its value takes a word that is no option. -/
def take? (word : String) (s : Scan σ) : Option (Scan σ) :=
  match s.pending with
  | some (o, none) => some { s with pending := some (o, some word) }
  | _ => none

/-- Help is given once the option before is settled. -/
def help (s : Scan σ) : UsageError :=
  match s.settle with
  | .ok _ => .help
  | .error e => e

/-- Reads an option. -/
def option (options : List (Setting σ)) (name : String) (value : Option String) (s : Scan σ) :
    Except UsageError (Scan σ) :=
  if name = "help" then
    match value with
    | none => .error s.help
    | some _ => .error .needlessValue
  else match options.find? (·.name == name) with
    | none => .error .unknownArgument
    | some o => do
      let s ← s.settle
      match value with
      | some value => s.assign o value
      | none => .ok { s with pending := some (o, none) }

end Scan

-- ── commands ────────────────────────────────────────────────────────

/-- What stands on a line: settings, and the command behind them with its words. -/
abbrev Line (σ : Type) := Scan σ × Option (String × List String)

/-- The fault of a word that has no place on a line. -/
def misplaced (commands : List String) : UsageError :=
  if commands.isEmpty then .unknownArgument else .unknownCommand

/-- Behind the separator no word has a place, least of all a command. -/
def afterSeparator {σ : Type} (commands : List String) (s : Scan σ) :
    List String → Except UsageError (Line σ)
  | [] => .ok (s, none)
  | word :: _ => .error (if commands.contains word then .unknownArgument else misplaced commands)

/-- Reads words up to a command or to the end. -/
def read {σ : Type} (options : List (Setting σ)) (commands : List String) (s : Scan σ) :
    List String → Except UsageError (Line σ)
  | [] => .ok (s, none)
  | word :: words =>
    match Word.ofString word with
    | .separator => afterSeparator commands s words
    | .option name value =>
      match s.option options name value with
      | .ok s => read options commands s words
      | .error e => .error e
    | .letters first => .error (if first = 'h' then s.help else .unknownArgument)
    | .plain text =>
      match s.take? text with
      | some s => read options commands s words
      | none =>
        if commands.contains text then .ok (s, some (text, words))
        else .error (misplaced commands)

end LiveMedia.Command
