import Population.Oracle.Basic
import Population.Oracle.External
import Population.Oracle.Script

/-!
# Consulting oracles

An oracle has a name and answers queries. A consultation takes time, may write log records, and
leaves an allowance behind: an oracle that reports a cancelled run leaves it cancelled.
-/

namespace Population

/-- What comes of asking an oracle. -/
structure Consultation where
  reply : Reply
  /-- How long it took, in nanoseconds. -/
  takes : Nat := 0
  allowance : Allowance
  logs : List LogRecord := []
  deriving DecidableEq

structure Oracle where
  name : Text
  consult : Query → Allowance → Consultation

namespace Oracle

/-- The consultation of an oracle that answers at once. -/
def atOnce (allowance : Allowance) (r : Reply) : Consultation where
  reply := r
  allowance := if r.error = some .cancelled then .cancelled else allowance

/-- The oracle that searches the state space. -/
def explicit (maxStates : Int) : Oracle where
  name := Explicit.name
  consult q a := atOnce a (Explicit.ask maxStates a q)

def external (tool : External.Tool) : Oracle where
  name := External.name
  consult q a := atOnce a (External.ask tool a q)

/-- An oracle whose outcomes are written down by the key of the target. -/
def scripted (name : Text) (outcomes : List (Text × Outcome)) (otherwise : Outcome) : Oracle where
  name := name
  consult q a :=
    let o := (outcomes.lookup q.target.key).getD otherwise
    { reply := o.reply
      takes := o.takes.toInt.toNat
      allowance := if o.cancels then .cancelled else a }

structure Attempts where
  takes : Nat := 0
  allowance : Allowance
  logs : List LogRecord := []

/-- The surroundings in which an oracle is asked about a query again and again. -/
def surroundings (o : Oracle) (q : Query) : Surroundings Attempts where
  name := o.name
  ask s :=
    let c := o.consult q s.allowance
    (c.reply, { takes := s.takes + c.takes, allowance := c.allowance, logs := s.logs ++ c.logs })
  poll s := s.allowance.poll.map fun a => { s with allowance := a }
  wait d s := (true, { s with takes := s.takes + d.toInt.toNat })
  log x s := { s with logs := s.logs ++ [x] }

/-- The oracle that asks another one again when it could not decide. -/
def retrying (o : Oracle) (attempts : Int) (backoff : Duration) : Oracle where
  name := o.name
  consult q a :=
    let (reply, s) := Retry.ask (o.surroundings q) attempts backoff { allowance := a }
    { reply, takes := s.takes, allowance := s.allowance, logs := s.logs }

def quiet (o : Oracle) : Oracle where
  name := o.name
  consult q a := { o.consult q a with logs := [] }

end Oracle

end Population
