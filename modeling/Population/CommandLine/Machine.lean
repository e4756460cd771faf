import Population.Analysis.Pipeline
import Population.CommandLine.Command
import Population.CounterSystem.Reader
import Population.Job.Storage
import Population.Settings.Loading
import Population.Simulation

/-!
# The machine that runs commands

What a run finds and leaves behind: the workspace, the durable stores, the clock and the
identifiers drawn so far. A run prints, logs and counts, and it may fail.
-/

namespace Population

open Text (byte)

/-- What outlives a run. -/
structure Machine where
  workspace : Workspace := {}
  /-- The durable stores by the cleaned paths of their files. -/
  stores : List (Text × DurableStore) := []
  clock : VirtualClock := { now := 0 }
  drawn : Nat := 0
  /-- What the tool of the external oracle does; it is found at its usual path. -/
  tool : External.Behaviour := .absent (.file .missing)

/-- What a run is started with. -/
structure Invocation where
  arguments : List Text
  stdin : Text := []
  environment : Settings.Environment := []

/-- How times and durations are shown. -/
structure Style where
  time : Int → Text
  duration : Duration → Text

/-- Why a command fails. -/
inductive CommandError where
  | flag (e : FlagError)
  | unknown (word : Text)
  /-- A command takes one operand. -/
  | operands (received : Nat)
  | settings (e : SettingsError)
  | file (e : FileError)
  | description (path : Text) (e : Description.ReadError)
  | system (path : Text) (e : CounterSystem.ReadError)
  | encoding (e : EncodeError)
  | simulation (e : SimulationError)
  | terminal (e : FormulaFault)
  | unknownOracle (kind : Text)
  | storage (e : StorageError)
  | store (e : StoreError)
  | service (e : ServiceError)
  | notDurable
  | unfinished (id : Text) (status : Status)
  | metrics (e : FileError)
  /-- The protocol is not known to be safe. -/
  | verdict (v : Verdict)

namespace CommandError

def hint (word : Text) : Text :=
  match Command.suggestions word with
  | [] => []
  | ws => "\n\nDid you mean this?\n" ++ ws.flatMap fun w => Text.cat ["\t", w, "\n"]

/-- The message of an error; a verdict has been printed already. -/
def message? : CommandError → Option Text
  | flag e => some e.message
  | unknown word =>
    some (Text.cat
      ["unknown command ", word.quote, " for ", Command.program.quote, hint word])
  | operands n => some ("accepts 1 arg(s), received " ++ Text.ofNat n)
  | settings e => some e.message
  | file e => some e.message
  | description path e => some (Text.cat [path, ": ", e.message])
  | system path e => some (Text.cat [path, ": ", e.message])
  | encoding e => some e.message
  | simulation e => some e.message
  | terminal e => some ("--terminal: " ++ e.message)
  | unknownOracle kind => some ("unknown oracle " ++ kind.quote)
  | storage e => some e.message
  | store e => some e.message
  | service e => some e.message
  | notDurable =>
    some (Text.cat ["job commands need jobs.store=", Settings.durableStore, " with a jobs.dsn"])
  | unfinished id status => some (Text.cat ["job ", id, " ", status.text])
  | metrics e => some ("write metrics: " ++ e.message)
  | verdict _ => none

def exitStatus : CommandError → Nat
  | verdict .violated => 2
  | verdict .inconclusive => 3
  | _ => 1

end CommandError

structure Desk where
  machine : Machine
  stdin : Text
  style : Style
  settings : Settings
  arguments : Arguments
  printed : Text := []
  logs : List LogRecord := []
  metrics : Metrics := {}

/-- A step of a run. What it did before it failed stays done. -/
abbrev Task (α : Type) := ExceptT CommandError (StateM Desk) α

namespace Task

variable {α ε : Type}

/-- Passes an error on as one of a command. -/
def lift (wrap : ε → CommandError) (r : Except ε α) : Task α :=
  match r with
  | .ok a => return a
  | .error e => throw (wrap e)

def print (parts : List Text) : Task Unit :=
  modify fun d => { d with printed := d.printed ++ Text.cat parts }

def log (level : Level) (message : Text) (attributes : List (Text × LogValue)) : Task Unit :=
  modify fun d => { d with logs := d.logs ++ [⟨level, message, attributes⟩] }

def settings : Task Settings :=
  return (← get).settings

def arguments : Task Arguments :=
  return (← get).arguments

def change (f : Machine → Machine) : Task Unit :=
  modify fun d => { d with machine := f d.machine }

/-- Reads a file; a dash stands for the standard input. -/
def readFile (path : Text) : Task Text := do
  if path = "-" then return (← get).stdin
  else lift .file ((← get).machine.workspace.read path)

def writeFile (wrap : FileError → CommandError) (path content : Text) : Task Unit := do
  let w ← lift wrap ((← get).machine.workspace.write path content)
  change fun m => { m with workspace := w }

end Task

end Population
