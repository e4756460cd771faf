import Population.Settings.Basic

/-!
# The table of settings

Every setting has a key in the settings file, a variable in the environment and a value of one of
five types. The table below is the one place that lists them; readers of files and environments
work through it.
-/

namespace Population.Settings

open Text (byte)

/-- The groups of settings. -/
inductive Group where
  | general
  | oracle
  | jobs
  | simulation
  | log
  deriving DecidableEq

namespace Group

/-- The key of a group in the settings file; the general settings stand at the top. -/
def key : Group → Text
  | general => ""
  | oracle => "oracle"
  | jobs => "jobs"
  | simulation => "simulation"
  | log => "log"

def label : Group → Text
  | general => "Config"
  | oracle => "Oracle"
  | jobs => "Jobs"
  | simulation => "Simulation"
  | log => "Log"

def typeName (g : Group) : Text :=
  "config." ++ g.label

/-- The groups below the top. -/
def nested : List Group :=
  [oracle, jobs, simulation, log]

end Group

/-- A place for a value of a type. -/
structure Slot (α : Type) where
  get : Settings → α
  set : α → Settings → Settings

/-- The place of a setting, by the type of its value. -/
inductive Place where
  | int (slot : Slot Int64)
  | natural (slot : Slot UInt64)
  | flag (slot : Slot Bool)
  | text (slot : Slot Text)
  | duration (slot : Slot Duration)

def Place.typeName : Place → Text
  | int _ => "int"
  | natural _ => "uint64"
  | flag _ => "bool"
  | text _ => "string"
  | duration _ => "time.Duration"

structure Field where
  group : Group
  key : Text
  label : Text
  place : Place

def upperByte (b : UInt8) : UInt8 :=
  if byte 'a' ≤ b ∧ b ≤ byte 'z' then b - 32 else b

/-- The variable of a setting in the environment. -/
def Field.variableName (f : Field) : Text :=
  let group := f.group.key
  Text.cat
    ["POPSAFE_", if group.isEmpty then [] else group.map upperByte ++ "_", f.key.map upperByte]

def ofOracle {α : Type} (get : OracleSettings → α) (set : α → OracleSettings → OracleSettings) :
    Slot α :=
  ⟨fun s => get s.oracle, fun a s => { s with oracle := set a s.oracle }⟩

def ofJobs {α : Type} (get : JobSettings → α) (set : α → JobSettings → JobSettings) : Slot α :=
  ⟨fun s => get s.jobs, fun a s => { s with jobs := set a s.jobs }⟩

def ofSimulation {α : Type} (get : SimulationSettings → α)
    (set : α → SimulationSettings → SimulationSettings) : Slot α :=
  ⟨fun s => get s.simulation, fun a s => { s with simulation := set a s.simulation }⟩

def ofLog {α : Type} (get : LogSettings → α) (set : α → LogSettings → LogSettings) : Slot α :=
  ⟨fun s => get s.log, fun a s => { s with log := set a s.log }⟩

def fields : List Field :=
  [⟨.general, "instance_bound", "InstanceBound",
      .int ⟨(·.instanceBound), fun a s => { s with instanceBound := a }⟩⟩,
    ⟨.general, "max_concurrency", "MaxConcurrency",
      .int ⟨(·.maxConcurrency), fun a s => { s with maxConcurrency := a }⟩⟩,
    ⟨.general, "deduplicate", "Deduplicate",
      .flag ⟨(·.deduplicate), fun a s => { s with deduplicate := a }⟩⟩,
    ⟨.general, "work_dir", "WorkDir", .text ⟨(·.workDir), fun a s => { s with workDir := a }⟩⟩,
    ⟨.oracle, "kind", "Kind", .text (ofOracle (·.kind) fun a s => { s with kind := a })⟩,
    ⟨.oracle, "path", "Path", .text (ofOracle (·.path) fun a s => { s with path := a })⟩,
    ⟨.oracle, "timeout", "Timeout",
      .duration (ofOracle (·.timeout) fun a s => { s with timeout := a })⟩,
    ⟨.oracle, "workers", "Workers", .int (ofOracle (·.workers) fun a s => { s with workers := a })⟩,
    ⟨.oracle, "max_states", "MaxStates",
      .int (ofOracle (·.maxStates) fun a s => { s with maxStates := a })⟩,
    ⟨.oracle, "attempts", "Attempts",
      .int (ofOracle (·.attempts) fun a s => { s with attempts := a })⟩,
    ⟨.oracle, "backoff", "Backoff",
      .duration (ofOracle (·.backoff) fun a s => { s with backoff := a })⟩,
    ⟨.jobs, "store", "Store", .text (ofJobs (·.store) fun a s => { s with store := a })⟩,
    ⟨.jobs, "dsn", "DSN", .text (ofJobs (·.dsn) fun a s => { s with dsn := a })⟩,
    ⟨.jobs, "ttl", "TTL", .duration (ofJobs (·.ttl) fun a s => { s with ttl := a })⟩,
    ⟨.jobs, "max_updates", "MaxUpdates",
      .int (ofJobs (·.maxUpdates) fun a s => { s with maxUpdates := a })⟩,
    ⟨.simulation, "steps", "Steps",
      .int (ofSimulation (·.steps) fun a s => { s with steps := a })⟩,
    ⟨.simulation, "seed", "Seed",
      .natural (ofSimulation (·.seed) fun a s => { s with seed := a })⟩,
    ⟨.log, "json", "JSON", .flag (ofLog (·.json) fun a s => { s with json := a })⟩,
    ⟨.log, "level", "Level", .text (ofLog (·.level) fun a s => { s with level := a })⟩]

def field? (g : Group) (key : Text) : Option Field :=
  fields.find? fun f => f.group == g && f.key == key

end Population.Settings
