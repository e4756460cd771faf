import Population.Job.Basic

/-!
# Jobs in memory

The store that lives as long as the process. One counter numbers the updates of all jobs; it is
taken never to run through its 64 bits, so numbers are unbounded here. The updates kept for a job
may be limited: the oldest are dropped first.
-/

namespace Population

structure MemoryStore where
  table : JobTable := []
  /-- The last sequence number given out. -/
  seq : Nat := 0
  /-- How many updates are kept for a job; no limit unless positive. -/
  maxUpdates : Int := 0

namespace MemoryStore

/-- The entry of a job that has not ended. -/
def entry (id : Text) : Transaction MemoryStore JobEntry := do
  (← get).table.open? id

def replace (e : JobEntry) : Transaction MemoryStore Unit :=
  modify fun m => { m with table := m.table.replace e }

def count : Transaction MemoryStore Nat :=
  modifyGet fun m => (m.seq + 1, { m with seq := m.seq + 1 })

def create (now : Int) (id : Text) : Transaction MemoryStore Job := do
  let job := Job.new id now
  modify fun m => { m with table := m.table ++ [⟨job, []⟩] }
  return job

def start (now : Int) (id : Text) : Transaction MemoryStore Unit := do
  let e ← entry id
  replace { e with job := { e.job with status := .running, updated := now } }

/-- The list with one update more, the oldest dropped when there is no room. -/
def push (maxUpdates : Int) (us : List Progress) (u : Progress) : List Progress :=
  (if 0 < maxUpdates ∧ maxUpdates ≤ us.length then us.tail else us) ++ [u]

def append (now : Int) (id : Text) (kind : Kind) (message : Text) :
    Transaction MemoryStore Progress := do
  let e ← entry id
  let seq ← count
  let u : Progress := { seq, kind, message, time := now }
  let maxUpdates := (← get).maxUpdates
  replace { job := { e.job with updated := now }, updates := push maxUpdates e.updates u }
  return u

/-- Ends a job; without a result the stored one stays. -/
def finish (now : Int) (id : Text) (status : Status) (result : Option JobResult) :
    Transaction MemoryStore Unit := do
  if status.isTerminal then
    let e ← entry id
    replace { e with
      job := { e.job with
        status, updated := now, finished := some now, result := result.or e.job.result } }
  else throw (.notTerminal id status)

def isExpired (cutoff : Int) (j : Job) : Bool :=
  j.status.isTerminal && j.finished.any (· < cutoff)

def evict (cutoff : Int) : Transaction MemoryStore Nat :=
  modifyGet fun m =>
    let (n, table) := m.table.evict (isExpired cutoff)
    (n, { m with table })

def get (m : MemoryStore) (id : Text) : Except StoreError Job :=
  match m.table.find? id with
  | none => .error (.notFound id)
  | some e => .ok e.job

def updates (m : MemoryStore) (id : Text) (since : Int) : Except StoreError (List Progress) :=
  match m.table.find? id with
  | none => .error (.notFound id)
  | some e => .ok (JobTable.updatesAfter e since)

def size (m : MemoryStore) : Nat :=
  m.table.length

end MemoryStore

end Population
