import Population.Allowance
import Population.Description.Audit
import Population.Text.Glyph
import Population.Text.Quoted

/-!
# Jobs

An analysis is recorded as a job: created pending, then running, then completed or failed. While it
has not ended it collects progress updates, and it ends with a result.
-/

namespace Population

/-- The stage of a job's life. -/
inductive Status where
  | pending
  | running
  | completed
  | failed
  /-- Any other word; no job ever has it. -/
  | other (word : Text)
  deriving DecidableEq

namespace Status

def text : Status → Text
  | pending => "pending"
  | running => "running"
  | completed => "completed"
  | failed => "failed"
  | other w => w

/-- The statuses of a life, by their words. -/
def stages : List (Text × Status) :=
  [pending, running, completed, failed].map fun s => (s.text, s)

def ofText (w : Text) : Status :=
  (stages.lookup w).getD (.other w)

def isTerminal : Status → Bool
  | completed | failed => true
  | pending | running | other _ => false

end Status

/-- What an update is about. -/
inductive Kind where
  | info
  | warning
  | success
  | error
  | other (word : Text)
  deriving DecidableEq

namespace Kind

def text : Kind → Text
  | info => "info"
  | warning => "warning"
  | success => "success"
  | error => "error"
  | other w => w

/-- The kinds that an analysis uses, by their words. -/
def known : List (Text × Kind) :=
  [info, warning, success, error].map fun k => (k.text, k)

def ofText (w : Text) : Kind :=
  (known.lookup w).getD (.other w)

end Kind

/-- One progress message of a job. -/
structure Progress where
  /-- Grows strictly within a job. No job has as many updates as 64 bits can number. -/
  seq : Int
  kind : Kind
  message : Text
  /-- Nanoseconds since the epoch. -/
  time : Int
  deriving DecidableEq

/-- What is known about one unsafe configuration. -/
inductive Finding.Status where
  | reachable
  | unreachable
  | unavailable
  /-- Any other word; the empty one stands for a question that was never answered. -/
  | other (word : Text)
  deriving DecidableEq

namespace Finding.Status

def text : Finding.Status → Text
  | reachable => "reachable"
  | unreachable => "unreachable"
  | unavailable => "unavailable"
  | other w => w

/-- The statuses of answered questions, by their words. -/
def known : List (Text × Finding.Status) :=
  [reachable, unreachable, unavailable].map fun s => (s.text, s)

def ofText (w : Text) : Finding.Status :=
  (known.lookup w).getD (.other w)

end Finding.Status

/-- The answer about one unsafe configuration. -/
structure Finding where
  configuration : Text := []
  transitions : List Text := []
  status : Finding.Status := .other []
  witness : List Text := []
  error : Text := []
  deriving DecidableEq

/-- The outcome of an analysis. -/
structure JobResult where
  /-- Empty when the analysis ended before a verdict. -/
  verdict : Text := []
  findings : List Finding := []
  globalTransitions : Int64 := 0
  guardedTransitions : Int64 := 0
  unmatched : Int64 := 0
  artifact : Text := []
  protocol : Option Summary := none

/-- A job without its updates. Times are nanoseconds since the epoch. -/
structure Job where
  id : Text
  status : Status
  created : Int
  updated : Int
  finished : Option Int
  result : Option JobResult

def Job.new (id : Text) (now : Int) : Job where
  id := id
  status := .pending
  created := now
  updated := now
  finished := none
  result := none

/-- Why a store refuses a call. -/
inductive StoreError where
  | notFound (id : Text)
  | finished (id : Text)
  /-- A job cannot end this way. -/
  | notTerminal (id : Text) (status : Status)
  | cancelled
  /-- The store is closed; the text names the step that noticed. -/
  | closed (during : Text)
  /-- The store refuses to be changed; the text names the step that tried to. -/
  | readOnly (during : Text)
  | broken (why : Text)
  deriving DecidableEq

def StoreError.message : StoreError → Text
  | notFound id => Text.cat ["job ", id, ": job not found"]
  | finished id => Text.cat ["job ", id, ": job already finished"]
  | notTerminal id status =>
    Text.cat ["finish job ", id, " as ", status.text.quote, ": status is not terminal"]
  | cancelled => Allowance.refusal
  | closed during => during ++ ": sql: database is closed"
  | readOnly during => during ++ ": attempt to write a readonly database (8)"
  | broken why => why

/-- A job with its updates, oldest first. -/
structure JobEntry where
  job : Job
  updates : List Progress

/-- Jobs with their updates, in order of creation. -/
abbrev JobTable := List JobEntry

namespace JobTable

def find? (t : JobTable) (id : Text) : Option JobEntry :=
  List.find? (fun e => e.job.id == id) t

/-- The entry of a job that has not ended. -/
def open? (t : JobTable) (id : Text) : Except StoreError JobEntry :=
  match t.find? id with
  | none => .error (.notFound id)
  | some e => if e.job.status.isTerminal then .error (.finished id) else .ok e

/-- Puts an entry in place of the one with the same job. -/
def replace (t : JobTable) (e : JobEntry) : JobTable :=
  t.map fun x => if x.job.id == e.job.id then e else x

def updatesAfter (e : JobEntry) (since : Int) : List Progress :=
  e.updates.filter fun u => since < u.seq

/-- Splits off the entries whose job has expired: their number, and what stays. -/
def evict (t : JobTable) (expired : Job → Bool) : Nat × JobTable :=
  (t.countP fun e => expired e.job, t.filter fun e => !expired e.job)

end JobTable

/-- A call of a store that may be refused; what it did before stays done. -/
abbrev Transaction (σ α : Type) := ExceptT StoreError (StateM σ) α

end Population
