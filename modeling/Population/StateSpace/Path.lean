import Population.StateSpace.Basic
import Std.Data.TreeSet

/-!
# Paths in a state space

Firings that lead from one state to another are looked for along the recorded edges, breadth first.
A state is taken up when an edge leads to it for the first time, together with the firings that led
there, and the walk ends at the first edge that leads to the goal.
-/

namespace Population

/-- A state with firings that lead to it. -/
structure Trail where
  state : Nat
  firings : List Text
  deriving DecidableEq

/-- The states that a walk along edges has come upon. -/
structure Walk where
  /-- In the order in which they were met. -/
  trails : Array Trail
  met : Std.TreeSet Nat

namespace Walk

def start (source : Nat) : Walk where
  trails := #[⟨source, []⟩]
  met := (∅ : Std.TreeSet Nat).insert source

/-- Takes up a state that was not met before. -/
def add (w : Walk) (t : Trail) : Walk where
  trails := w.trails.push t
  met := w.met.insert t.state

/-- Follows edges in order behind firings, up to the first one that leads to the goal. -/
def along (goal : Nat) (firings : List Text) (w : Walk) : List Edge → Walk × Option (List Text)
  | [] => (w, none)
  | e :: rest =>
    if w.met.contains e.target then w.along goal firings rest
    else
      let t : Trail := ⟨e.target, firings ++ [e.transition]⟩
      if e.target = goal then (w, some t.firings)
      else (w.add t).along goal firings rest

end Walk

namespace StateSpace

/-- Follows the edges of the states that were met, from place `head` on. Every state but the first
was met along an edge of its own, so one round more than there are edges is enough. -/
def walkFrom (s : StateSpace) (goal : Nat) :
    (fuel : Nat) → (head : Nat) → Walk → Option (List Text)
  | 0, _, _ => none
  | fuel + 1, head, w =>
    match w.trails[head]? with
    | none => none
    | some t =>
      match w.along goal t.firings (s.edgesFrom t.state) with
      | (_, some firings) => some firings
      | (w, none) => s.walkFrom goal fuel (head + 1) w

/-- The firings by which a walk from one state comes to another, if the edges lead there. -/
def findPath (s : StateSpace) (source goal : Nat) : Option (List Text) :=
  if source = goal then some []
  else s.walkFrom goal (s.edgeCount + 1) 0 (.start source)

end StateSpace

end Population
