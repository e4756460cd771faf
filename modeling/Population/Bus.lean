import Population.Job.Basic
import Population.Log.Basic

/-!
# The event bus

Subscribers hear about the updates of one job or of all jobs. A publication reaches those who are
subscribed when it starts, in the order of their subscriptions, each of them once. What a handler
does is given as a value: it may fail, leave, remove others, publish again or close the bus, and
none of this affects the other deliveries of the same publication. What it fails with and what it
publishes are parameters of the bus.
-/

namespace Population

/-- An update of a job. -/
structure Event where
  job : Text
  update : Progress
  deriving DecidableEq

/-- What a handler does in one call: it ends subscriptions, and it may fail after that. -/
structure Conduct where
  ends : List Text := []
  fails : Bool := false
  deriving DecidableEq

/-- What a handler does with an event, after it has taken note of it. -/
inductive Reaction where
  | listen
  | crash
  /-- It ends its own subscription. -/
  | leave
  | remove (ids : List Text)
  | echo
  /-- It closes the bus. -/
  | close
  /-- Something else each time: what it does in its first call, in its second call and so on, and
  nothing more after those. -/
  | vary (conducts : List Conduct)
  deriving DecidableEq

structure Subscription where
  id : Text
  /-- Subscriptions are numbered from one. -/
  number : Nat
  job : Text
  reaction : Reaction
  deriving DecidableEq

/-- The job name that stands for all jobs. -/
def allJobs : Text := "*"

/-- Whether a subscription is for an event. -/
def Subscription.covers (s : Subscription) (e : Event) : Bool :=
  s.job == allJobs || s.job == e.job

structure Delivery where
  subscription : Subscription
  event : Event
  deriving DecidableEq

/-- What handlers fail with and what they publish. -/
structure Handlers where
  panic : Subscription → Event → Text
  /-- The event that a handler publishes on hearing of one. -/
  echo : Subscription → Event → Option Event
  /-- How many publications may lie within that of an event. -/
  depth : Event → Nat

/-- Handlers that fail with a word and the message, and that publish an event again with the next
smaller sequence number while that is not negative. -/
def Handlers.countdown : Handlers where
  panic _ e := "boom " ++ e.update.message
  echo _ e :=
    if 0 < e.update.seq then some { e with update := { e.update with seq := e.update.seq - 1 } }
    else none
  depth e := e.update.seq.toNat

inductive BusError where
  | noHandler
  | noJob
  | closed
  | noSubscription (id : Text)
  deriving DecidableEq

def BusError.message : BusError → Text
  | noHandler => "handler cannot be nil"
  | noJob => "job ID cannot be empty"
  | closed => "event bus closed"
  | noSubscription id => "subscription not found: " ++ id

/-- The bus with the history of its deliveries. -/
structure Bus where
  subscriptions : List Subscription := []
  isClosed : Bool := false
  made : Nat := 0
  delivered : List Delivery := []
  logs : List LogRecord := []
  handlers : Handlers := .countdown

namespace Bus

/-- Adds a subscription; a missing handler is refused first, then a missing job, then a closed
bus. -/
def subscribe (b : Bus) (id job : Text) (reaction : Option Reaction) : Except BusError Bus :=
  match reaction with
  | none => .error .noHandler
  | some r =>
    if job.isEmpty then .error .noJob
    else if b.isClosed then .error .closed
    else .ok { b with
      made := b.made + 1
      subscriptions := b.subscriptions ++ [⟨id, b.made + 1, job, r⟩] }

/-- Ends a subscription. -/
def unsubscribe (b : Bus) (id : Text) : Except BusError Bus :=
  if b.subscriptions.any (·.id == id) then
    .ok { b with subscriptions := b.subscriptions.eraseP (·.id == id) }
  else .error (.noSubscription id)

/-- Ends a subscription if there is one. -/
def drop (b : Bus) (id : Text) : Bus :=
  { b with subscriptions := b.subscriptions.eraseP (·.id == id) }

/-- Closes the bus for good and ends all subscriptions. -/
def close (b : Bus) : Except BusError Bus :=
  if b.isClosed then .error .closed else .ok { b with isClosed := true, subscriptions := [] }

def recordCrash (s : Subscription) (e : Event) (b : Bus) : Bus :=
  let record : LogRecord :=
    { level := .error
      message := "event handler panicked"
      attributes :=
        [("subscription", .text s.id), ("job_id", .text e.job),
          ("panic", .text (b.handlers.panic s e))] }
  { b with logs := b.logs ++ [record] }

def timesCalled (delivered : List Delivery) (s : Subscription) : Nat :=
  delivered.countP fun d => d.subscription.number == s.number

def behave (c : Conduct) (s : Subscription) (e : Event) (b : Bus) : Bus :=
  let b := c.ends.foldl drop b
  if c.fails then recordCrash s e b else b

/-- Calls a handler; `again` publishes an event. -/
def deliver (again : Event → Bus → Bus) (e : Event) (b : Bus) (s : Subscription) : Bus :=
  let earlier := timesCalled b.delivered s
  let b := { b with delivered := b.delivered ++ [⟨s, e⟩] }
  match s.reaction with
  | .listen => b
  | .crash => recordCrash s e b
  | .leave => b.drop s.id
  | .remove ids => ids.foldl drop b
  | .echo =>
    match b.handlers.echo s e with
    | some echo => again echo b
    | none => b
  | .close => { b with isClosed := true, subscriptions := [] }
  | .vary conducts =>
    match conducts[earlier]? with
    | some c => behave c s e b
    | none => b

/-- Publishes an event with at most `depth` publications within; a closed bus stays as it is. -/
def publishTo : (depth : Nat) → Event → Bus → Bus
  | depth, e, b =>
    if b.isClosed then b
    else
      (b.subscriptions.filter (·.covers e)).foldl
        (deliver (fun e b => match depth with
          | 0 => b
          | depth + 1 => publishTo depth e b) e) b
termination_by structural depth => depth

/-- Publishes an event to those who are subscribed now. -/
def publish (b : Bus) (e : Event) : Except BusError Bus :=
  if b.isClosed then .error .closed else .ok (publishTo (b.handlers.depth e) e b)

def size (b : Bus) : Nat :=
  b.subscriptions.length

end Bus

end Population
