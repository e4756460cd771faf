import Population.Job.Basic

/-!
# Durable jobs

The store that outlives the process. Times are kept in whole milliseconds, updates are numbered per
job, and results are kept as JSON text, in which stray bytes become replacement characters. A
closed store refuses every call, and a read-only one every change.
-/

namespace Population

namespace JobResult

/-- A finding as it comes back from JSON text. -/
def repairedFinding (f : Finding) : Finding where
  configuration := f.configuration.repaired
  transitions := f.transitions.map Text.repaired
  status := .ofText f.status.text.repaired
  witness := f.witness.map Text.repaired
  error := f.error.repaired

def repairedMap (m : ProtocolMap) : ProtocolMap :=
  Std.TreeMap.ofList (m.toList.map fun (k, v) => (Text.repaired k, v.map Text.repaired)) compare

def repairedSummary (s : Summary) : Summary where
  agentStates := s.agentStates.map fun (n, safe) => (Text.repaired n, safe)
  agentActions := s.agentActions.map Text.repaired
  agentProtocol := repairedMap s.agentProtocol
  environmentStates := s.environmentStates.map Text.repaired
  environmentActions := s.environmentActions.map Text.repaired
  environmentProtocol := repairedMap s.environmentProtocol

/-- A result as it comes back from JSON text. -/
def repaired (r : JobResult) : JobResult where
  verdict := r.verdict.repaired
  findings := r.findings.map repairedFinding
  globalTransitions := r.globalTransitions
  guardedTransitions := r.guardedTransitions
  unmatched := r.unmatched
  artifact := r.artifact.repaired
  protocol := r.protocol.map repairedSummary

end JobResult

structure DurableStore where
  table : JobTable := []
  isOpen : Bool := true
  readOnly : Bool := false

namespace DurableStore

/-- The whole milliseconds of a time, in nanoseconds. -/
def toMillis (t : Int) : Int :=
  t / 1000000 * 1000000

def requireOpen (d : DurableStore) (during : Text) : Except StoreError Unit :=
  if d.isOpen then .ok () else .error (.closed during)

def requireWritable (d : DurableStore) (during : Text) : Except StoreError Unit :=
  if d.readOnly then .error (.readOnly during) else .ok ()

def requireBoth (during : Text) : Transaction DurableStore Unit := do
  let d ← get
  d.requireOpen during
  d.requireWritable during

/-- The entry of a job that has not ended, for a transaction that will change it. -/
def begin (during id : Text) : Transaction DurableStore JobEntry := do
  let d ← get
  d.requireOpen "begin transaction"
  let e ← d.table.open? id
  d.requireWritable during
  return e

def replace (e : JobEntry) : Transaction DurableStore Unit :=
  modify fun d => { d with table := d.table.replace e }

def create (now : Int) (id : Text) : Transaction DurableStore Job := do
  requireBoth "create job"
  let job := Job.new id (toMillis now)
  modify fun d => { d with table := d.table ++ [⟨job, []⟩] }
  return job

def start (now : Int) (id : Text) : Transaction DurableStore Unit := do
  let e ← begin "start job" id
  replace { e with job := { e.job with status := .running, updated := toMillis now } }

/-- The largest sequence number among updates, or zero. -/
def lastSeq (us : List Progress) : Int :=
  us.foldl (fun n u => max n u.seq) 0

def append (now : Int) (id : Text) (kind : Kind) (message : Text) :
    Transaction DurableStore Progress := do
  let e ← begin "append update" id
  let u : Progress := { seq := lastSeq e.updates + 1, kind, message, time := toMillis now }
  replace { job := { e.job with updated := toMillis now }, updates := e.updates ++ [u] }
  return u

/-- Ends a job; without a result the stored one stays. -/
def finish (now : Int) (id : Text) (status : Status) (result : Option JobResult) :
    Transaction DurableStore Unit := do
  if status.isTerminal then
    let e ← begin "finish job" id
    replace { e with
      job := { e.job with
        status
        updated := toMillis now
        finished := some (toMillis now)
        result := (result.map JobResult.repaired).or e.job.result } }
  else throw (.notTerminal id status)

/-- Whether a job ended before a time, in whole milliseconds. -/
def isExpired (cutoff : Int) (j : Job) : Bool :=
  j.finished.any (· < toMillis cutoff)

def evict (cutoff : Int) : Transaction DurableStore Nat := do
  requireBoth "evict jobs"
  modifyGet fun d =>
    let (n, table) := d.table.evict (isExpired cutoff)
    (n, { d with table })

def entry (d : DurableStore) (id : Text) : Except StoreError JobEntry := do
  d.requireOpen "get job"
  match d.table.find? id with
  | none => throw (.notFound id)
  | some e => return e

def get (d : DurableStore) (id : Text) : Except StoreError Job := do
  return (← d.entry id).job

def updates (d : DurableStore) (id : Text) (since : Int) : Except StoreError (List Progress) := do
  return JobTable.updatesAfter (← d.entry id) since

end DurableStore

end Population
