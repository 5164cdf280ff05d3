import LiveMedia.Command.Invocation

/-!
# The simulator as a program

Reads the command line, runs the simulation with jitter drawn at random, and prints the events of the
run as a log.
-/

namespace LiveMedia.Command

open LiveMedia.Time LiveMedia.Simulation

-- ── texts ───────────────────────────────────────────────────────────

/-- The options of a command, one a line. -/
def optionLines {σ : Type} (options : List (Setting σ)) : String :=
  String.join (options.map fun o => "      --" ++ o.name ++ " <value>\n")

def usage : String :=
  "Publish a synthetic track, push it through a simulated network, and watch it.\n\n" ++
  "Usage: [--log-level <level>] <command> [options]\n\n" ++
  "Commands:\n" ++
  "  video  Video frames in groups of pictures; stale groups are skipped\n" ++
  optionLines videoSettings ++
  "  audio  A sine tone played out of a jitter buffer\n" ++
  optionLines audioSettings

/-- What is said of a line that cannot be carried out. -/
def UsageError.message : UsageError → String
  | help | emptyLine => usage
  | missingCommand => "error: a command is required"
  | unknownCommand => "error: unrecognized command"
  | unknownArgument => "error: unexpected argument"
  | missingValue => "error: a value is required"
  | badValue => "error: invalid value"
  | needlessValue => "error: unexpected value"
  | repeatedOption => "error: an option cannot be used multiple times"

/-- Events are logged at the level of information. -/
def LogLevel.showsEvents : LogLevel → Bool
  | error | warn => false
  | info | debug | trace => true

-- ── drawing ─────────────────────────────────────────────────────────

/-- The network of a task. -/
def Task.network : Task → Network
  | video v => v.network
  | audio t => t.network

/-- Draws whole microseconds up to the jitter, for each group from a generator of its own. -/
def drawFrom (seed : Nat) (jitter : Span) : Draw := fun sequence =>
  ⟨1000 * (randNat (mkStdGen (seed + sequence)) 0 (jitter.nanos / 1000)).1⟩

-- ── running ─────────────────────────────────────────────────────────

/-- Prints a report and gives the exit code. -/
def printReport (level : LogLevel) (report : Report) : IO UInt32 := do
  if level.showsEvents then
    for event in report.events do
      IO.eprintln event.text
  match report.fault with
  | none => return 0
  | some fault =>
    IO.eprintln ("Error: " ++ fault.message)
    return 1

end LiveMedia.Command

open LiveMedia.Command in
def main (words : List String) : IO UInt32 := do
  match Invocation.ofWords words with
  | .ok i =>
    let seed ← IO.rand 0 1000000000
    printReport i.level (i.run (drawFrom seed i.task.network.jitter))
  | .error .help =>
    IO.print usage
    return 0
  | .error e =>
    IO.eprintln e.message
    return 2
