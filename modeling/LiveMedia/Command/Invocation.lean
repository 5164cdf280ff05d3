import LiveMedia.Command.Options
import LiveMedia.Number.Single
import LiveMedia.Simulation.Audio
import LiveMedia.Simulation.Video
import LiveMedia.Time.Written

/-!
# The command line of the simulator

The line names a simulation and its settings. Options of the simulation stand behind its name, the
level of detail of the log before it. Each setting has a standard value.
-/

namespace LiveMedia.Command

open LiveMedia.Time LiveMedia.Number LiveMedia.Simulation

/-- How much is logged. -/
inductive LogLevel where
  | error
  | warn
  | info
  | debug
  | trace
deriving DecidableEq, Repr

namespace LogLevel

/-- All levels, the least talkative first. -/
def all : List LogLevel := [error, warn, info, debug, trace]

def name : LogLevel → String
  | error => "error"
  | warn => "warn"
  | info => "info"
  | debug => "debug"
  | trace => "trace"

/-- The level of a name in small or capital letters, or of a number from 1. -/
def ofText? (s : String) : Option LogLevel :=
  match unsigned? (1 <<< 64) s with
  | some 0 => none
  | some (n + 1) => all[n]?
  | none => all.find? fun level => level.name.toList == s.toList.map Char.toLower

end LogLevel

/-- What is to be simulated. -/
inductive Task where
  | video (v : Video)
  | audio (t : Tone)
deriving DecidableEq, Repr

structure Invocation where
  level : LogLevel
  task : Task
deriving DecidableEq, Repr

-- ── settings ────────────────────────────────────────────────────────

/-- An option whose value is read by `parse`. -/
def setting {σ α : Type} (name : String) (parse : String → Option α) (put : σ → α → σ) :
    Setting σ :=
  ⟨name, fun value s => (parse value).map (put s)⟩

def word32? : String → Option Nat := signed? (1 <<< 32)

def word64? : String → Option Nat := unsigned? (1 <<< 64)

/-- The options of the network, for settings that hold one. -/
def networkSettings {σ : Type} (get : σ → Network) (put : σ → Network → σ) : List (Setting σ) :=
  [setting "latency" Span.ofWritten? fun s d => put s { get s with latency := d },
    setting "jitter" Span.ofWritten? fun s d => put s { get s with jitter := d },
    setting "stall" word64? fun s n => put s { get s with stall := some n },
    setting "stall-duration" Span.ofWritten? fun s d => put s { get s with stallDuration := d }]

def videoSettings : List (Setting Video) :=
  networkSettings Video.network (fun v network => { v with network }) ++
  [setting "groups" word32? fun v n => { v with groups := n },
    setting "frames" word32? fun v n => { v with frames := n },
    setting "fps" word32? fun v n => { v with rate := n },
    setting "size" word64? fun v n => { v with size := n }]

def audioSettings : List (Setting Tone) :=
  networkSettings Tone.network (fun t network => { t with network }) ++
  [setting "sample-rate" word32? fun t n => { t with sampleRate := n },
    setting "channels" word32? fun t n => { t with channels := n },
    setting "frequency" Single.ofDecimal? fun t x => { t with frequency := x },
    setting "frame" Span.ofWritten? fun t d => { t with frame := d },
    setting "duration" Span.ofWritten? fun t d => { t with duration := d },
    setting "buffer" Span.ofWritten? fun t d => { t with buffer := d },
    setting "chunk" Span.ofWritten? fun t d => { t with chunk := d }]

def levelSetting : Setting LogLevel := setting "log-level" LogLevel.ofText? fun _ level => level

-- ── reading a line ──────────────────────────────────────────────────

/-- The words that may stand where a command does. -/
def commands : List String := ["video", "audio", "help"]

/-- The settings of a command that has options only. -/
def readSettings {σ : Type} (options : List (Setting σ)) (standard : σ) (words : List String) :
    Except UsageError σ := do
  let (s, _) ← read options [] (.start standard) words
  return (← s.settle).settings

/-- Help can be asked for on one command. -/
def helpOn : List String → UsageError
  | [] => .help
  | [command] => if commands.contains command then .help else .unknownCommand
  | _ => .unknownCommand

def Task.ofWords (command : String) (words : List String) : Except UsageError Task :=
  match command with
  | "video" => (readSettings videoSettings .standard words).map .video
  | "audio" => (readSettings audioSettings .standard words).map .audio
  | _ => .error (helpOn words)

/-- The invocation that the words of a line make. -/
def Invocation.ofWords (words : List String) : Except UsageError Invocation := do
  match ← read [levelSetting] commands (.start .info) words with
  | (s, some (command, words)) =>
    let task ← Task.ofWords command words
    return ⟨(← s.settle).settings, task⟩
  | (s, none) =>
    let s ← s.settle
    .error (if s.given.isEmpty then .emptyLine else .missingCommand)

/-- Carries out what the line asks for. -/
def Invocation.run (i : Invocation) (draw : Draw) : Report :=
  match i.task with
  | .video v => v.run draw
  | .audio t => t.run draw

end LiveMedia.Command
