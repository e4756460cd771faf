import Population.Allowance
import Population.CounterSystem.Basic
import Std.Data.TreeMap

/-!
# Discovery

Both explorers number the markings of a system in the order in which they come upon them, starting
with the initial marking as number zero, and remember the firing that led to each one first. Two
markings are the same state when their keys are equal.
-/

namespace Population

/-- A discovered marking with the firing that discovered it. -/
structure Node where
  marking : Marking
  /-- The state from which it was discovered; its own number for the initial state. -/
  parent : Nat
  /-- The transition that fired; empty for the initial state. -/
  transition : Text
  deriving DecidableEq

/-- The markings discovered so far. -/
structure Discovery where
  /-- By number. -/
  nodes : Array Node
  /-- Numbers by key. -/
  index : Std.TreeMap Text Nat

namespace Discovery

def start (initial : Marking) : Discovery where
  nodes := #[⟨initial, 0, []⟩]
  index := (∅ : Std.TreeMap Text Nat).insert initial.key 0

def size (d : Discovery) : Nat :=
  d.nodes.size

def find? (d : Discovery) (m : Marking) : Option Nat :=
  d.index[m.key]?

def add (d : Discovery) (parent : Nat) (step : Step) : Discovery where
  nodes := d.nodes.push ⟨step.marking, parent, step.transition⟩
  index := d.index.insert step.marking.key d.nodes.size

def marking? (d : Discovery) (id : Nat) : Option Marking :=
  d.nodes[id]?.map (·.marking)

/-- The firings from the initial marking to a state, in front of `rest`; each step back goes to a
smaller number, so fuel of the number itself is enough. -/
def pathFrom (d : Discovery) : (fuel : Nat) → (id : Nat) → (rest : List Text) → List Text
  | 0, _, rest => rest
  | fuel + 1, id, rest =>
    if id = 0 then rest
    else match d.nodes[id]? with
      | none => rest
      | some n => d.pathFrom fuel n.parent (n.transition :: rest)

/-- The firings by which a state was discovered. -/
def pathTo (d : Discovery) (id : Nat) : List Text :=
  d.pathFrom id id []

end Discovery

/-- Why an exploration stopped early. -/
inductive Stop where
  | limit (states : Nat)
  | cancelled
  deriving DecidableEq

def Stop.message : Stop → Text
  | limit n => Text.cat ["state space limit reached (", Text.ofNat n, " states)"]
  | cancelled => Allowance.refusal

/-- The limit that is used for a given one: ten thousand when it is not positive. -/
def stateLimit (given : Int) : Nat :=
  if given ≤ 0 then 10000 else given.toNat

end Population
