import Population.Oracle.Retry

/-!
# Scripted oracles

An oracle whose outcomes are written down beforehand, and the surroundings in which it is asked
again and again: waits end at once unless one of them is meant to be cut short.
-/

namespace Population

/-- One outcome of a script. -/
structure Outcome where
  reply : Reply
  cancels : Bool
  /-- By how much time moves before the reply. -/
  takes : Duration
  deriving DecidableEq

/-- The outcome with a given number; the last one is repeated. -/
def outcomeAt (script : List Outcome) (n : Nat) : Option Outcome :=
  script[n]?.or script.getLast?

/-- A scripted oracle at work. -/
structure Rehearsal where
  script : List Outcome
  allowance : Allowance
  /-- The number of the wait that is cut short, counted from one; zero for none. -/
  cutWait : Nat
  calls : Nat := 0
  waits : List Duration := []
  logs : List LogRecord := []

namespace Rehearsal

def ask (r : Rehearsal) : Reply × Rehearsal :=
  match outcomeAt r.script r.calls with
  | none => (⟨none, none⟩, { r with calls := r.calls + 1 })
  | some o =>
    (o.reply, { r with
      calls := r.calls + 1
      allowance := if o.cancels then .cancelled else r.allowance })

def wait (d : Duration) (r : Rehearsal) : Bool × Rehearsal :=
  let r := { r with waits := r.waits ++ [d] }
  if r.waits.length = r.cutWait then (false, { r with allowance := .cancelled }) else (true, r)

def surroundings (name : Text) : Surroundings Rehearsal where
  name := name
  ask := ask
  poll r := r.allowance.poll.map fun a => { r with allowance := a }
  wait := wait
  log x r := { r with logs := r.logs ++ [x] }

end Rehearsal

end Population
