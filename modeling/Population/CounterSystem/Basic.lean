import Population.Guard

/-!
# Counter systems

A counter system declares counters with their initial values and guarded transitions, both in
order. A transition is fireable at a marking when its guard holds there and its updates leave no
counter negative.
-/

namespace Population

/-- A declared counter. -/
structure Counter where
  name : Text
  initial : Int64
  deriving DecidableEq

/-- A named guarded update sequence. -/
structure Transition where
  name : Text
  guard : Guard
  updates : Updates
  deriving DecidableEq

/-- The marking that firing produces, when the transition is fireable. -/
def Transition.fire? (t : Transition) (m : Marking) : Option Marking :=
  if t.guard.holds m then
    let next := t.updates.apply m
    if next.nonNegative then some next else none
  else none

/-- A firing: the transition and the marking it produces. -/
structure Step where
  transition : Text
  marking : Marking
  deriving DecidableEq

/-- Declared counters and guarded transitions, in declaration order. -/
structure CounterSystem where
  name : Text
  counters : List Counter
  transitions : List Transition
  deriving DecidableEq

namespace CounterSystem

def counterNames (s : CounterSystem) : List Text :=
  s.counters.map (·.name)

/-- The marking that holds every initial value. -/
def initial (s : CounterSystem) : Marking :=
  Marking.ofList (s.counters.map fun v => (v.name, v.initial))

/-- The firings that are possible at a marking, in declaration order. -/
def fireable (s : CounterSystem) (m : Marking) : List Step :=
  s.transitions.filterMap fun t => (t.fire? m).map fun next => ⟨t.name, next⟩

end CounterSystem

end Population
