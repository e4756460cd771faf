import Population.Bus
import Population.Job.Registry
import Population.Metrics
import Population.Oracle.Consultation
import Population.Workspace

/-!
# The analysis service

The service records analyses as jobs. It holds the registry of jobs, the event bus, the log, the
metrics and the workspace. Its operations run under a context that may be cancelled; each step asks
the context at most once.
-/

namespace Population

/-- How the service analyses. -/
structure AnalysisOptions where
  /-- How many agents may be active at once. -/
  bound : Int64
  /-- How many agents may fill one action slot. -/
  maxConcurrency : Int
  deduplicate : Bool
  /-- The folder for counter systems. -/
  workDir : Text
  /-- How long finished jobs are kept, in nanoseconds. -/
  ttl : Int
  deriving DecidableEq

/-- The options with defaults in place of zero values. -/
def AnalysisOptions.withDefaults (o : AnalysisOptions) : AnalysisOptions where
  bound := o.bound
  maxConcurrency := if o.maxConcurrency = 0 then 2 else o.maxConcurrency
  deduplicate := o.deduplicate
  workDir := if o.workDir.isEmpty then "." else o.workDir
  ttl := if o.ttl ≤ 0 then 3600000000000 else o.ttl

/-- The calls of a store that may be made to fail. -/
inductive StoreCall where
  | create
  | start
  | append
  | finish
  | evict
  deriving DecidableEq

/-- A store that breaks: after some calls of one kind, all further ones fail. -/
structure Breakage where
  call : StoreCall
  left : Nat
  deriving DecidableEq

/-- How tasks are carried out. Each task of so many has its turn once; when one of them brings no
answer, those behind it are dropped that do not outlive it. -/
structure Schedule where
  order : Nat → List Nat
  perm : ∀ n, (order n).Perm (List.range n)
  /-- Whether a task is carried out after another one has brought no answer. -/
  outlives : (task failed : Nat) → Bool

/-- One task after the other, up to one that brings no answer. -/
def Schedule.inTurn : Schedule where
  order := List.range
  perm _ := .rfl
  outlives _ _ := false

/-- The state of the service. -/
structure Service where
  options : AnalysisOptions
  oracle : Oracle
  registry : Registry
  bus : Option Bus := none
  logs : List LogRecord := []
  metrics : Metrics := {}
  workspace : Workspace := {}
  running : Int := 0
  isOpen : Bool := true
  schedule : Schedule := .inTurn
  breakage : Option Breakage := none
  /-- What a broken store answers. -/
  failure : StoreError := .broken "disk full"

/-- The tasks that are carried out of so many, in their order; a service that is closed carries out
none. -/
def Service.tasks (v : Service) (n : Nat) : List Nat :=
  if v.isOpen then v.schedule.order n else []

/-- Why the service refuses an operation. -/
inductive ServiceError where
  | store (e : StoreError)
  /-- The store refused a call on the way to something. -/
  | during (what : Text) (e : StoreError)
  | stopped (id : Text)
  deriving DecidableEq

namespace ServiceError

def message : ServiceError → Text
  | store e => e.message
  | during what e => Text.cat [what, ": ", e.message]
  | stopped id => Text.cat ["submit job ", id, ": pool stopped"]

/-- The store's refusal behind a refusal. -/
def cause? : ServiceError → Option StoreError
  | store e | during _ e => some e
  | stopped _ => none

end ServiceError

/-- A service at work for a caller. -/
structure Session where
  service : Service
  /-- Whether the caller's run may go on. -/
  context : Allowance
  draft : Option JobResult := none

/-- An operation of the service that may be refused; what it did before stays done. -/
abbrev Act (ε α : Type) := ExceptT ε (StateM Session) α

/-- Carries out an operation for a caller. -/
def Service.perform {ε α : Type} (s : Service) (context : Allowance) (act : Act ε α) :
    Except ε α × Service :=
  let (answer, session) := act { service := s, context }
  (answer, session.service)

namespace Act

variable {ε ε' α : Type}

def change (f : Service → Service) : Act ε Unit :=
  modify fun s => { s with service := f s.service }

def look (f : Service → α) : Act ε α :=
  return f (← get).service

/-- Asks the context whether the run may go on. -/
def permitted : Act ε Bool := do
  match (← get).context.poll with
  | none => return false
  | some a =>
    modify fun s => { s with context := a }
    return true

/-- Does something in a context that is never cancelled, and returns to the old one. -/
def detached (act : Act ε α) : Act ε α := do
  let context := (← get).context
  modify fun s => { s with context := .unlimited }
  let outcome ← ExceptT.lift act.run
  modify fun s => { s with context }
  match outcome with
  | .ok a => return a
  | .error e => throw e

/-- Renames the refusals of an operation. -/
def refusing (wrap : ε → ε') (act : Act ε α) : Act ε' α :=
  ExceptT.adapt wrap act

/-- Handles a refusal. -/
def orElse (act : Act ε Unit) (handle : ε → Act ε' Unit) : Act ε' Unit := do
  match ← ExceptT.lift act.run with
  | .ok () => return
  | .error e => handle e

/-- Writes a log record; the oracle's name is its first attribute. -/
def log (level : Level) (message : Text) (attributes : List (Text × LogValue)) : Act ε Unit :=
  change fun s => { s with
    logs := s.logs ++ [⟨level, message, ("oracle", .text s.oracle.name) :: attributes⟩] }

/-- Counts a call of the store and tells whether it gets through. -/
def getsThrough (call : StoreCall) : Act ε Bool := do
  match ← look (·.breakage) with
  | none => return true
  | some b =>
    if b.call ≠ call then return true
    else if b.left = 0 then return false
    else
      change fun s => { s with breakage := some { b with left := b.left - 1 } }
      return true

def registry (f : Registry → Except StoreError α × Registry) : Act StoreError α := do
  let (answer, r) := f (← look (·.registry))
  change fun s => { s with registry := r }
  answer

/-- Calls the store, unless it is broken. -/
def call (which : StoreCall) (f : Bool → Registry → Except StoreError α × Registry) :
    Act StoreError α := do
  if ← getsThrough which then
    let allowed ← permitted
    registry (f allowed)
  else throw (← look (·.failure))

def create : Act StoreError Job :=
  call .create fun allowed r => r.create allowed

def start (id : Text) : Act StoreError Unit :=
  call .start fun allowed r => r.start allowed id

def append (id : Text) (kind : Kind) (message : Text) : Act StoreError Progress :=
  call .append fun allowed r => r.append allowed id kind message

def finish (id : Text) (status : Status) (result : Option JobResult) : Act StoreError Unit :=
  call .finish fun allowed r => r.finish allowed id status result

def evictBefore (cutoff : Int) : Act StoreError Nat :=
  call .evict fun allowed r => r.evict allowed cutoff

def fetch (id : Text) : Act StoreError Job := do
  let allowed ← permitted
  (← look (·.registry)).store.get allowed id

/-- The updates of a job after a sequence number. -/
def fetchUpdates (id : Text) (since : Int) : Act StoreError (List Progress) := do
  let allowed ← permitted
  (← look (·.registry)).store.updates allowed id since

def levelOf : Kind → Level
  | .warning => .warn
  | .error => .error
  | _ => .info

/-- Records an update of a job and logs it. -/
def record (id : Text) (kind : Kind) (message : Text) : Act ServiceError Progress := do
  let u ← (append id kind message).refusing (.during ("report to job " ++ id))
  log (levelOf kind) message [("job_id", .text id), ("kind", .text kind.text)]
  return u

/-- Publishes an update of a job; a closed bus is only logged. -/
def announce (id : Text) (u : Progress) : Act ε Unit := do
  match ← look (·.bus) with
  | none => return
  | some b =>
    match b.publish ⟨id, u⟩ with
    | .ok b => change fun s => { s with bus := some b }
    | .error e =>
      log .debug "update not published" [("job_id", .text id), ("error", .text e.message)]

/-- Records, logs and publishes an update of a job. -/
def report (id : Text) (kind : Kind) (message : Text) : Act ServiceError Unit := do
  let u ← record id kind message
  announce id u

end Act

end Population
