import Population.Text.Basic

/-!
# Allowances

A long-running operation asks at fixed points whether it may go on. An allowance is the number of
times it will still be told yes; from then on it is cancelled for good.
-/

namespace Population

/-- How often a run may still go on; `none` is a run that is never cancelled. -/
structure Allowance where
  polls : Option Nat
  deriving DecidableEq

namespace Allowance

def unlimited : Allowance := ⟨none⟩

def cancelled : Allowance := ⟨some 0⟩

/-- Asks once: the allowance that is left, or nothing when the run is cancelled. -/
def poll (a : Allowance) : Option Allowance :=
  match a.polls with
  | none => some a
  | some 0 => none
  | some (n + 1) => some ⟨some n⟩

/-- Whether the next poll is refused. -/
def isCancelled (a : Allowance) : Bool :=
  a.poll.isNone

def refusal : Text := "context canceled"

@[simp]
theorem poll_unlimited : unlimited.poll = some unlimited := rfl

end Allowance

end Population
