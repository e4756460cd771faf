import Population.StateSpace.Path
import Population.StateSpace.Search

/-!
# Properties of a state space

Checks over the explored part of a reachability graph. Each one goes through the states in the
order of their numbers, and the first state that decides is reported with firings that lead to it
along the edges.
-/

namespace Population

namespace StateSpace

def numbered (s : StateSpace) : List (Marking × Nat) :=
  s.markings.zipIdx

def first? (s : StateSpace) (p : Marking → Nat → Bool) : Option (Marking × Nat) :=
  s.numbered.find? fun (m, id) => p m id

def report (s : StateSpace) (property : Text) (satisfied : Bool) (message : Text)
    (witness : List Text) : CheckResult :=
  { property, satisfied, message, witness, statesChecked := s.size }

def reportAt (s : StateSpace) (property : Text) (satisfied : Bool) (message : Text) (id : Nat) :
    CheckResult :=
  s.report property satisfied message ((s.findPath 0 id).getD [])

/-- The largest of the values above `best`, with the naturally first counter that holds it. -/
def raise (best : Int64 × Text) (m : Marking) : Int64 × Text :=
  let top := m.entries.foldl (fun v (_, w) => if v < w then w else v) best.1
  if best.1 < top then
    let holders := (m.entries.filter fun (_, v) => v == top).map (·.1)
    (top, (Text.sortNaturally holders).head?.getD [])
  else best

/-- The largest counter value, zero when none is positive, and a counter that holds it. -/
def maximum (s : StateSpace) : Int64 × Text :=
  s.markings.foldl raise (0, [])

/-- The largest value; satisfied when the space is complete. -/
def boundedness (s : StateSpace) : CheckResult :=
  let (value, counter) := s.maximum
  let message :=
    if !s.complete then "exploration incomplete; largest value seen is " ++ Text.ofInt64 value
    else if counter.isEmpty then Text.cat ["system is ", Text.ofInt64 value, "-bounded"]
    else Text.cat
      ["system is ", Text.ofInt64 value, "-bounded (largest value in ", counter, ")"]
  s.report "boundedness" s.complete message []

/-- Whether a state is stuck without being meant to: it has no edge, and if the space is not
complete, nothing is fireable at it either. -/
def isDeadlock (s : StateSpace) (sys : CounterSystem) (terminal : Marking → Bool) (m : Marking)
    (id : Nat) : Bool :=
  (s.edgesFrom id).isEmpty && !terminal m &&
    (s.complete || !sys.transitions.any fun t => (t.fire? m).isSome)

/-- No state is stuck without being meant to. -/
def deadlockFreedom (s : StateSpace) (sys : CounterSystem) (terminal : Marking → Bool)
    (name : Text) : CheckResult :=
  match s.first? (s.isDeadlock sys terminal) with
  | some (m, id) =>
    s.reportAt name false (Text.cat ["deadlock at state ", Text.ofNat id, ": ", m.text]) id
  | none => s.report name true "no deadlocks in the explored state space" []

/-- Some state agrees with the target on the counters that it mentions. -/
def reachability (s : StateSpace) (target : Marking) : CheckResult :=
  match s.first? fun m _ => (Pattern.covers target).matches m with
  | some (_, id) =>
    s.reportAt "reachability" true ("target reachable at state " ++ Text.ofNat id) id
  | none => s.report "reachability" false "target not reachable from the initial marking" []

/-- The sum of the counters with coefficients, modulo 2^64. -/
def weighted (coefficients : Marking) (m : Marking) : Int64 :=
  coefficients.entries.foldl (fun sum (name, c) => sum + c * m.get name) 0

/-- The weighted sum never exceeds the bound. -/
def invariant (s : StateSpace) (coefficients : Marking) (bound : Int64) (name : Text) :
    CheckResult :=
  match s.first? fun m _ => bound < weighted coefficients m with
  | some (m, id) =>
    s.reportAt name false
      (Text.cat ["invariant violated at state ", Text.ofNat id, ": sum=",
        Text.ofInt64 (weighted coefficients m), " > bound=", Text.ofInt64 bound]) id
  | none =>
    s.report name true
      (Text.cat ["invariant holds across all ", Text.ofNat s.size, " states"]) []

/-- Two counters are never positive together. -/
def mutualExclusion (s : StateSpace) (a b : Text) (name : Text) : CheckResult :=
  match s.first? fun m _ => 0 < m.get a && 0 < m.get b with
  | some (_, id) =>
    s.reportAt name false
      (Text.cat [a, " and ", b, " are both occupied at state ", Text.ofNat id]) id
  | none => s.report name true (Text.cat ["mutual exclusion holds between ", a, " and ", b]) []

/-- A counter never exceeds a bound. -/
def staysWithin (s : StateSpace) (counter : Text) (bound : Int64) (name : Text) : CheckResult :=
  match s.first? fun m _ => bound < m.get counter with
  | some (m, id) =>
    s.reportAt name false
      (Text.cat [counter, " holds ", Text.ofInt64 (m.get counter), " (max allowed: ",
        Text.ofInt64 bound, ") at state ", Text.ofNat id]) id
  | none =>
    s.report name true
      (Text.cat [counter, " stays within ", Text.ofInt64 bound, " across all states"]) []

/-- A counter becomes positive. -/
def occupied (s : StateSpace) (counter : Text) (name : Text) : CheckResult :=
  match s.first? fun m _ => 1 ≤ m.get counter with
  | some (_, id) =>
    s.reportAt name true (Text.cat [counter, " reachable at state ", Text.ofNat id]) id
  | none => s.report name false (counter ++ " is never occupied") []

end StateSpace

inductive Property where
  | staysWithin (name counter : Text) (bound : Int64)
  | occupied (name counter : Text)
  | mutualExclusion (name a b : Text)
  | deadlockFreedom (name : Text)
  | invariant (name : Text) (coefficients : Marking) (bound : Int64)

namespace Property

def description : Property → Text
  | staysWithin _ counter bound => Text.cat [counter, " never exceeds ", Text.ofInt64 bound]
  | occupied _ counter => counter ++ " is reachable"
  | mutualExclusion _ a b => Text.cat [a, " and ", b, " are mutually exclusive"]
  | deadlockFreedom _ => "no reachable marking is stuck"
  | invariant _ _ bound =>
    Text.cat ["linear invariant holds (sum <= ", Text.ofInt64 bound, ")"]

def check (p : Property) (sys : CounterSystem) (terminal : Marking → Bool) (s : StateSpace) :
    CheckResult :=
  match p with
  | staysWithin name counter bound => s.staysWithin counter bound name
  | occupied name counter => s.occupied counter name
  | mutualExclusion name a b => s.mutualExclusion a b name
  | deadlockFreedom name => s.deadlockFreedom sys terminal name
  | invariant name coefficients bound => s.invariant coefficients bound name

def isDeadlockFreedom : Property → Bool
  | deadlockFreedom _ => true
  | _ => false

end Property

/-- The results of several checks with the figures of the state space. -/
structure Certificate where
  system : Text
  properties : List CheckResult
  states : Nat
  edges : Nat
  /-- Whether the exploration finished. -/
  bounded : Bool
  maxValue : Int64
  maxCounter : Text
  deadlockFree : Bool
  deriving DecidableEq

namespace Certificate

def allSatisfied (c : Certificate) : Bool :=
  c.properties.all (·.satisfied)

def of (sys : CounterSystem) (s : StateSpace) (properties : List CheckResult)
    (deadlockFree : Bool) : Certificate where
  system := sys.name
  properties := properties
  states := s.size
  edges := s.edgeCount
  bounded := s.complete
  maxValue := s.maximum.1
  maxCounter := s.maximum.2
  deadlockFree := deadlockFree

/-- Boundedness and deadlock freedom. -/
def standard (sys : CounterSystem) (terminal : Marking → Bool) (s : StateSpace) : Certificate :=
  let deadlock := s.deadlockFreedom sys terminal "deadlock_freedom"
  .of sys s [s.boundedness, deadlock] deadlock.satisfied

/-- The given properties; deadlock freedom is doubted only where a property asks for it. -/
def ofProperties (sys : CounterSystem) (terminal : Marking → Bool) (ps : List Property)
    (s : StateSpace) : Certificate :=
  let results := ps.map fun p => (p, p.check sys terminal s)
  .of sys s (results.map (·.2))
    (results.all fun (p, r) => r.satisfied || !p.isDeadlockFreedom)

end Certificate

end Population
