import Population.Description.Basic

/-!
# Transition keys

One action occurrence of a synchronization is realized by the local transitions with a given
action, environment action and multiset of co-occurring actions. The key holds these three, the
multiset as a sorted list, and an index finds all transitions of a key in declaration order. Its
entries are kept in the order of their keys and searched by bisection.
-/

namespace Population

/-- What identifies the local transitions that realize one action occurrence. -/
structure TransitionKey where
  action : Text
  sync : Text
  /-- The co-occurring actions, sorted by `TransitionKey.of`. -/
  concurrent : List Text
  deriving DecidableEq

namespace TransitionKey

/-- The key with the co-occurring actions in any order. -/
def of (action sync : Text) (concurrent : List Text) : TransitionKey :=
  ⟨action, sync, Text.sort concurrent⟩

/-- Keys are ordered by action, then environment action, then co-occurring actions. -/
def order : TransitionKey → TransitionKey → Ordering :=
  compareLex (compareOn (·.action)) (compareLex (compareOn (·.sync)) (compareOn (·.concurrent)))

instance : Std.TransCmp order := by
  unfold order
  infer_instance

def agrees (k other : TransitionKey) : Bool :=
  order k other == .eq

/-- The key as `(action, sync, [others])`. -/
def text (k : TransitionKey) : Text :=
  Text.cat ["(", k.action, ", ", k.sync, ", ", Text.bracketed k.concurrent, ")"]

end TransitionKey

def LocalTransition.key (t : LocalTransition) : TransitionKey :=
  .of t.action t.sync t.concurrent

structure KeyedTransitions where
  key : TransitionKey
  /-- In declaration order. -/
  transitions : List LocalTransition
  deriving DecidableEq

/-- The place from `lo` to `hi` at which a condition ends; the element in the middle tells in which
half of the range it lies. -/
def bisect {α : Type} (holds : α → Bool) (xs : Array α) (lo hi : Nat) (hhi : hi ≤ xs.size) : Nat :=
  if h : lo < hi then
    if holds xs[(lo + hi) / 2] then bisect holds xs ((lo + hi) / 2 + 1) hi hhi
    else bisect holds xs lo ((lo + hi) / 2) (by omega)
  else lo
termination_by hi - lo

/-- The place lies in the range, whatever the condition. -/
theorem bisect_le {α : Type} {holds : α → Bool} {xs : Array α} {lo hi : Nat} {hhi : hi ≤ xs.size}
    (h : lo ≤ hi) : bisect holds xs lo hi hhi ≤ hi := by
  fun_induction bisect holds xs lo hi hhi with
  | case1 lo hi hhi hlt hmid ih => exact ih (by omega)
  | case2 lo hi hhi hlt hmid ih =>
    have := ih (by omega)
    omega
  | case3 lo hi hhi hge => exact h

/-- Local transitions grouped by key. -/
structure TransitionIndex where
  /-- One entry for each key, in the order of the keys. -/
  entries : Array KeyedTransitions
  deriving DecidableEq

namespace TransitionIndex

instance : EmptyCollection TransitionIndex := ⟨⟨#[]⟩⟩

/-- Where a key stands among the entries, or where it would have to be inserted. -/
def position (ix : TransitionIndex) (k : TransitionKey) : Nat :=
  bisect (fun e => TransitionKey.order e.key k == .lt) ix.entries 0 ix.entries.size
    (Nat.le_refl _)

theorem position_le (ix : TransitionIndex) (k : TransitionKey) :
    ix.position k ≤ ix.entries.size :=
  bisect_le (Nat.zero_le _)

def find? (ix : TransitionIndex) (k : TransitionKey) : Option KeyedTransitions :=
  ix.entries[ix.position k]?.filter (·.key.agrees k)

/-- The transitions of a key in declaration order. -/
def lookup (ix : TransitionIndex) (k : TransitionKey) : List LocalTransition :=
  match ix.find? k with
  | some e => e.transitions
  | none => []

/-- Adds a transition behind the others of its key, or an entry for its key. -/
def add (ix : TransitionIndex) (t : LocalTransition) : TransitionIndex :=
  match ix.find? t.key with
  | some _ =>
    ⟨ix.entries.modify (ix.position t.key) fun e => { e with transitions := e.transitions ++ [t] }⟩
  | none =>
    ⟨ix.entries.insertIdx (ix.position t.key) ⟨t.key, [t]⟩ (ix.position_le t.key)⟩

def ofList (ts : List LocalTransition) : TransitionIndex :=
  ts.foldl add ∅

end TransitionIndex

end Population
