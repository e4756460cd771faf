import Population.Analysis.Service
import Population.Analysis.Verdict
import Population.Composition.Basic
import Population.CounterSystem.Printer
import Population.Description.Reader

/-!
# The analysis of a protocol

An analysis reads the description, composes agent and environment, encodes the counter system,
writes it to a file, asks the oracle about every hazard, and folds the answers into a verdict.
Every step reports to the job; a failure ends the job as failed, with the result so far.
-/

namespace Population

open Text (byte)

/-- Why an analysis fails. -/
inductive AnalysisError where
  | service (e : ServiceError)
  | description (e : Description.ReadError)
  | encoding (e : EncodeError)
  | file (what : Text) (e : FileError)
  | cancelled

def AnalysisError.message : AnalysisError → Text
  | service e => e.message
  | description e => "parse protocol: " ++ e.message
  | encoding e => e.message
  | file what e => Text.cat [what, ": ", e.message]
  | cancelled => Allowance.refusal

def completedManually : Text := "marked as completed manually"

def failedLabel : Text := "failed"

namespace Act

/-- Whatever is no letter or digit becomes an underscore. -/
def plain (id : Text) : Text :=
  id.map fun b => if Name.isPart b then b else byte '_'

def artifactPath (workDir id : Text) : Text :=
  Path.join workDir (id ++ ".gal")

/-- Reports an update, as a step of an analysis. -/
def tell (id : Text) (kind : Kind) (message : Text) : Act AnalysisError Unit :=
  (report id kind message).refusing .service

def tellAll (id : Text) (kind : Kind) : List Text → Act AnalysisError Unit
  | [] => return
  | m :: ms => do
    tell id kind m
    tellAll id kind ms

def revise (f : JobResult → JobResult) : Act AnalysisError Unit :=
  modify fun s => { s with draft := some (f (s.draft.getD {})) }

def measure {ε : Type} (f : Metrics → Metrics) : Act ε Unit :=
  change fun s => { s with metrics := f s.metrics }

def parsedText (c : Census) : Text :=
  Text.cat
    ["parsed protocol: ", Text.ofNat c.agentStates, " agent states (",
      Text.ofNat c.forbiddenStates, " unsafe), ", Text.ofNat c.agentTransitions,
      " local transitions, ", Text.ofNat c.environmentTransitions, " environment transitions"]

def composedText (c : Composition) : Text :=
  Text.cat
    ["composed ", Text.ofNat c.transitions.length, " global transitions from ",
      Text.ofNat c.expansions, " expansions"]

def encodedText (e : Encoding) : Text :=
  Text.cat
    ["encoded counter system ", e.system.name, ": ", Text.ofNat e.system.counters.length,
      " counters, ", Text.ofNat e.guardedTransitions, " guarded transitions, ",
      Text.ofNat e.hazards.length, " unsafe configurations"]

/-- Reads the description and reports its parts and issues. -/
def readDescription (id text : Text) : Act AnalysisError Description := do
  match Description.read text with
  | .error e => throw (.description e)
  | .ok d =>
    revise fun r => { r with protocol := some d.summary }
    tell id .info (parsedText d.census)
    tellAll id .warning (d.audit.map Issue.message)
    return d

/-- Composes and reports what remains unmatched. -/
def composeAll (id : Text) (d : Description) : Act AnalysisError Composition := do
  let opts ← look (·.options)
  let c := compose d ⟨opts.maxConcurrency, opts.deduplicate⟩
  measure fun m => { m with
    globalTransitions := m.globalTransitions ++ [c.transitions.length]
    unmatched := m.unmatched + c.unmatched.length }
  revise fun r => { r with
    globalTransitions := .ofNat c.transitions.length
    unmatched := .ofNat c.unmatched.length }
  tellAll id .warning (c.unmatched.map fun u => "unmatched synchronization: " ++ u.text)
  tell id .info (composedText c)
  return c

def encodeAll (id : Text) (d : Description) (c : Composition) : Act AnalysisError Encoding := do
  let opts ← look (·.options)
  match encode d c.transitions ⟨opts.bound, "job_" ++ plain id⟩ with
  | .error e => throw (.encoding e)
  | .ok enc =>
    measure fun m => { m with
      guardedTransitions := m.guardedTransitions ++ [enc.guardedTransitions] }
    revise fun r => { r with guardedTransitions := .ofNat enc.guardedTransitions }
    tell id .info (encodedText enc)
    return enc

def writeArtifact (id : Text) (enc : Encoding) : Act AnalysisError Text := do
  let dir := (← look (·.options)).workDir
  let path := artifactPath dir id
  match (← look (·.workspace)).makeFolder dir with
  | .error e => throw (.file "create work dir" e)
  | .ok w =>
    change fun s => { s with workspace := w }
    match w.write path enc.system.text with
    | .error e => throw (.file "write counter system" e)
    | .ok w =>
      change fun s => { s with workspace := w }
      revise fun r => { r with artifact := path }
      tell id .info ("wrote " ++ path)
      return path

/-- Asks the oracle about a hazard; nothing when it gave neither an answer nor an error. -/
def inquire (q : Query) (h : Hazard) : Act AnalysisError (Option Inquiry) := do
  let o ← look (·.oracle)
  let c := o.consult q (← get).context
  modify fun s => { s with context := c.allowance }
  change fun s => { s with registry := s.registry.advance c.takes, logs := s.logs ++ c.logs }
  measure fun m => m.observeDuration o.name c.takes
  match Inquiry.ofReply h c.reply with
  | none => return none
  | some i =>
    measure fun m => m.countQuery o.name i.finding.status.text
    return some i

/-- Carries out tasks, each an index into the hazards, and writes each answer to its slot. A task
without an answer leaves its slot as it is, and the tasks behind it are dropped unless they outlive
it. -/
def inquireBy (outlives : Nat → Nat → Bool) (ask : Hazard → Act AnalysisError (Option Inquiry))
    (hazards : List Hazard) : (tasks failed : List Nat) → (slots : List Inquiry) →
      Act AnalysisError (List Inquiry)
  | [], _, slots => return slots
  | i :: rest, failed, slots => do
    if !failed.all (outlives i) then inquireBy outlives ask hazards rest failed slots
    else match hazards[i]? with
      | none => inquireBy outlives ask hazards rest failed slots
      | some h =>
        match ← ask h with
        | none => inquireBy outlives ask hazards rest (i :: failed) slots
        | some a => inquireBy outlives ask hazards rest failed (slots.set i a)

/-- Asks about every hazard; a service that is closed asks nothing. -/
def inquireAll (enc : Encoding) (path : Text) : Act AnalysisError (List Inquiry) := do
  let tasks ← look (·.tasks enc.hazards.length)
  let outlives ← look (·.schedule.outlives)
  inquireBy outlives (fun h => inquire ⟨some enc.system, path, h.marking⟩ h) enc.hazards tasks []
    (enc.hazards.map fun _ => {})

/-- Reports the answers in the order of the hazards. -/
def reportInquiries (id : Text) : List (Hazard × Inquiry) → Act AnalysisError Unit
  | [] => return
  | (h, i) :: rest => do
    tellAll id .info i.output
    let (kind, message) := i.describe h
    tell id kind message
    revise fun r => { r with findings := r.findings ++ [i.finding] }
    reportInquiries id rest

def conclude (id : Text) (v : Verdict) (message : Text) : Act AnalysisError Unit := do
  revise fun r => { r with verdict := v.text }
  tell id v.kind message

def judge (id : Text) (enc : Encoding) (path : Text) : Act AnalysisError Unit := do
  if enc.hazards.isEmpty then
    conclude id .safe "no transition populates an unsafe state: protocol is safe"
  else
    let inquiries ← inquireAll enc path
    if !(← permitted) then throw .cancelled
    reportInquiries id (enc.hazards.zip inquiries)
    let v := Verdict.fold (inquiries.map fun i => i.finding.status)
    conclude id v ("verdict: protocol is " ++ v.text)

/-- All steps of an analysis. -/
def pipeline (id text : Text) : Act AnalysisError Unit := do
  (start id).refusing fun e => .service (.store e)
  let d ← readDescription id text
  let c ← composeAll id d
  let enc ← encodeAll id d c
  let path ← writeArtifact id enc
  judge id enc path

def logLost {ε : Type} (message id error : Text) : Act ε Unit :=
  log .error message [("job_id", .text id), ("error", .text error)]

/-- Ends the job of an analysis with the result so far. -/
def close {ε : Type} (id : Text) (status : Status) : Act ε Unit := do
  let result := (← get).draft
  (finish id status result).orElse fun e => logLost "job could not be finished" id e.message

def fail {ε : Type} (id : Text) (e : AnalysisError) : Act ε Unit := do
  measure (·.countJob failedLabel)
  (report id .error e.message).orElse fun e => logLost "job update lost" id e.message
  close id .failed

def complete {ε : Type} (id : Text) : Act ε Unit := do
  measure (·.countJob (((← get).draft.map (·.verdict)).getD []))
  close id .completed

/-- Counts an analysis in or out. -/
def countRunning {ε : Type} (by' : Int) : Act ε Unit :=
  change fun s => { s with
    running := s.running + by', metrics := { s.metrics with inFlight := s.metrics.inFlight + by' } }

/-- Analyses a text for a job and ends the job. The outcome is recorded even when the run was
cancelled. -/
def analyze {ε : Type} (id text : Text) : Act ε Unit := do
  countRunning 1
  modify fun s => { s with draft := none }
  let outcome ← ExceptT.lift (pipeline id text).run
  detached (match outcome with
    | .ok () => complete id
    | .error e => fail id e)
  countRunning (-1)

def checkText (text : Text) : Act ServiceError Job := do
  let job ← create.refusing (.during "create job")
  analyze job.id text
  detached ((fetch job.id).refusing .store)

/-- Takes a text for analysis and returns its pending job; the analysis is carried out without
regard to the caller's run. -/
def submit (text : Text) : Act ServiceError Job := do
  let job ← create.refusing (.during "create job")
  if ← look (·.isOpen) then
    log .info "job submitted" [("job_id", .text job.id)]
    detached (analyze job.id text)
    return job
  else
    detached ((finish job.id .failed none).orElse fun e =>
      logLost "job could not be finished" job.id e.message)
    throw (.stopped job.id)

def completeByHand (id : Text) : Act ServiceError Unit := do
  report id .success completedManually
  (finish id .completed none).refusing .store

/-- Removes the jobs that ended longer ago than they are kept. -/
def evict : Act ServiceError Nat := do
  let now ← look (·.registry.now)
  let ttl := (← look (·.options)).ttl
  let n ← (evictBefore (now - ttl)).refusing (.during "evict jobs")
  if 0 < n then log .debug "evicted finished jobs" [("count", .int n)]
  return n

/-- Waits for an interval while time passes, and evicts once it is over. -/
def janitor {ε : Type} (every passes : Int) : Act ε Unit := do
  let stopped := (← get).context.isCancelled
  let (clock, atOnce) := (← look (·.registry)).clock.after every
  let (clock, later) := clock.advance passes
  change fun s => { s with registry := { s.registry with clock } }
  if !stopped ∧ (atOnce ++ later) ≠ [] then
    (do let _ ← evict : Act ServiceError Unit).orElse fun e =>
      log .warn "job eviction failed" [("error", .text e.message)]

/-- Stops taking jobs and asking questions. -/
def shut {ε : Type} : Act ε Unit :=
  change fun s => { s with isOpen := false }

end Act

end Population
