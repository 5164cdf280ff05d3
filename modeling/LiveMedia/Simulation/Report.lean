import LiveMedia.Simulation.Fault

/-!
# Reports

A run reports what happens as events. An event has a message and named values, all of them texts.
-/

namespace LiveMedia.Simulation

structure Event where
  message : String
  fields : List (String × String)
deriving DecidableEq, Repr

/-- The events of a run, and why it was given up if it was. -/
structure Report where
  events : List Event
  fault : Option Fault
deriving DecidableEq, Repr

namespace Report

def refused (fault : Fault) : Report := ⟨[], some fault⟩

/-- The events that end a run, without the largest delay, which hangs on what is drawn. -/
def totals (r : Report) : Report :=
  { r with events := (r.events.filter fun e => e.message == "done").map fun e =>
      { e with fields := e.fields.filter fun field => field.1 != "max_delay" } }

end Report

/-- A list of numbers between brackets. -/
def listText (ns : List Nat) : String := "[" ++ ", ".intercalate (ns.map toString) ++ "]"

/-- One line: the message, and each field with its value. -/
def Event.text (e : Event) : String :=
  " ".intercalate (e.message :: e.fields.map fun (name, value) => name ++ "=" ++ value)

end LiveMedia.Simulation
