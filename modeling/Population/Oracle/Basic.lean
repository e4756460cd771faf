import Population.Allowance
import Population.CounterSystem.Basic
import Population.Description.Basic
import Population.Log.Basic
import Population.StateSpace.Search

/-!
# Oracles

An oracle decides whether a marking of a counter system is reachable. Failure to decide is an error
of its own and never reads as "unreachable". The explicit oracle searches the state space, up to a
limit on the number of states.
-/

namespace Population

/-- The question whether a target is reachable. -/
structure Query where
  system : Option CounterSystem
  path : Text
  /-- Counters that the target does not mention must be zero; the counter of active agents is
  free. -/
  target : Marking

structure Answer where
  reachable : Bool
  /-- The question as a formula. -/
  formula : Text
  /-- Lines worth reporting. -/
  output : List Text
  /-- Firings that reach the target, if the oracle knows them. -/
  witness : List Text
  deriving DecidableEq

/-- Why an oracle did not answer. -/
inductive OracleError where
  | unavailable
  | undecided (who why : Text)
  | cancelled
  /-- It failed otherwise. -/
  | failed (message : Text)
  deriving DecidableEq

namespace OracleError

/-- The words for an oracle that cannot decide. -/
def heading : Text := "reachability oracle unavailable"

def message : OracleError → Text
  | unavailable => heading
  | undecided who why => Text.cat [who, ": ", heading, ": ", why]
  | cancelled => Allowance.refusal
  | failed m => m

def isUnavailable : OracleError → Bool
  | unavailable | undecided .. => true
  | cancelled | failed _ => false

end OracleError

/-- An oracle's reply: a partial answer may come with an error. -/
structure Reply where
  answer : Option Answer
  error : Option OracleError
  deriving DecidableEq

/-- The question as a conjunction over the declared counters, in declaration order, without the
counter of active agents. -/
def formula (sys : CounterSystem) (target : Marking) : Text :=
  let parts := (sys.counterNames.filter fun n => n != reservedName).map fun n =>
    Text.cat [n, "==", Text.ofInt64 (target.get n)]
  if parts.isEmpty then "true" else Text.join " && " parts

namespace Explicit

def name : Text := "explicit"

/-- The pattern of a query: equal to the target on all counters but that of active agents. -/
def pattern (target : Marking) : Pattern :=
  .exactly target [reservedName]

/-- The error that an early stop amounts to. -/
def errorOf : Stop → OracleError
  | .limit n => .undecided name (Stop.limit n).message
  | .cancelled => .cancelled

def ask (maxStates : Int) (allowance : Allowance) (q : Query) : Reply :=
  match q.system with
  | none => ⟨none, some (.undecided name "no system")⟩
  | some sys =>
    let (result, stop) := reach sys (stateLimit maxStates) allowance (pattern q.target).matches
    let explored := Text.ofNat result.statesChecked ++ " reachable states explored"
    let output := explored :: if result.message.isEmpty then [] else [result.message]
    let answer (reachable : Bool) (witness : List Text) : Answer :=
      { reachable, formula := formula sys q.target, output, witness }
    match stop with
    | some s => ⟨some (answer false []), some (errorOf s)⟩
    | none => ⟨some (answer result.satisfied result.witness), none⟩

end Explicit

end Population
