import Population.Text.Basic

/-!
# Expansions

An environment transition names action slots. Each slot may be filled by one agent or by several
agents that perform the same action, up to a limit; an expansion is the sorted list of the actions
of one such choice. The choices are passed through by an odometer with one count for each slot, the
last count fastest: a count at the limit starts again from one and carries over to the count before
it. Each turn leaves one turn less, so the odometer comes to its end.
The slots may be given in any order; a copy of them is sorted, and they stay as they are.
-/

namespace Population

/-- How many agents may fill one slot; a limit below one counts as one. -/
def slotLimit (limit : Int) : Nat :=
  (max limit 1).toNat

theorem one_le_slotLimit (limit : Int) : 1 ≤ slotLimit limit := by
  unfold slotLimit
  omega

/-- The numbers of agents that fill the slots, each of them from one to the limit. -/
structure Odometer (limit : Nat) where
  counts : List Nat
  within : ∀ n ∈ counts, 1 ≤ n ∧ n ≤ limit

namespace Odometer

def start {limit : Nat} (h : 1 ≤ limit) (slots : Nat) : Odometer limit where
  counts := List.replicate slots 1
  within n hn := by
    rw [List.eq_of_mem_replicate hn]
    exact ⟨Nat.le_refl 1, h⟩

/-- Carries over to the count before position `i`. Unless it is at the limit it goes up by one; at
the limit it starts again from one, and the count before it is next. -/
def carry (limit : Nat) (counts : List Nat) : Nat → Option (List Nat)
  | 0 => none
  | i + 1 =>
    if counts[i]? = some limit then carry limit (counts.set i 1) i
    else some (counts.modify i (· + 1))

/-- How often the counts can be turned: what they lack to the limit are the digits of the number. -/
def turnsLeft (limit : Nat) (counts : List Nat) : Nat :=
  counts.foldl (fun r n => r * limit + (limit - n)) 0

theorem turnsLeft_concat (limit : Nat) (counts : List Nat) (n : Nat) :
    turnsLeft limit (counts ++ [n]) = turnsLeft limit counts * limit + (limit - n) := by
  simp [turnsLeft]

/-- The next counts are as many, within the limit, and can be turned once less. -/
structure Turns (limit : Nat) (counts next : List Nat) : Prop where
  length : next.length = counts.length
  within : ∀ n ∈ next, 1 ≤ n ∧ n ≤ limit
  turnsLeft : turnsLeft limit counts = turnsLeft limit next + 1

theorem carry_limit (limit : Nat) (front back : List Nat) :
    carry limit (front ++ [limit] ++ back) (front.length + 1) =
      carry limit (front ++ 1 :: back) front.length := by
  simp [carry]

theorem carry_below {limit n : Nat} (h : n ≠ limit) (front back : List Nat) :
    carry limit (front ++ [n] ++ back) (front.length + 1) = some (front ++ [n + 1] ++ back) := by
  simp [carry, h, List.modify_eq_take_cons_drop]

/-- Carrying over to counts in front of others turns these counts, unless all of them are at the
limit. -/
theorem carry_cases {limit : Nat} {front : List Nat} (back : List Nat)
    (h : ∀ n ∈ front, 1 ≤ n ∧ n ≤ limit) :
    carry limit (front ++ back) front.length = none ∧
        turnsLeft limit front = 0 ∨
      ∃ next, carry limit (front ++ back) front.length = some (next ++ back) ∧
        Turns limit front next := by
  rcases List.eq_nil_or_concat front with rfl | ⟨front, n, rfl⟩
  · exact .inl ⟨rfl, rfl⟩
  · rw [List.concat_eq_append] at h ⊢
    have hn := h n (by simp)
    have hfront : ∀ m ∈ front, 1 ≤ m ∧ m ≤ limit := fun m hm => h m (by simp [hm])
    rw [List.length_append, List.length_singleton, turnsLeft_concat]
    by_cases hlimit : n = limit
    · subst hlimit
      rw [carry_limit]
      rcases carry_cases (1 :: back) hfront with ⟨hnone, hleft⟩ | ⟨next, hsome, hturns⟩
      · exact .inl ⟨hnone, by rw [hleft, Nat.zero_mul, Nat.sub_self]⟩
      · refine .inr ⟨next ++ [1], by simp [hsome], ?_, ?_, ?_⟩
        · simp [hturns.length]
        · intro m hm
          rcases List.mem_append.mp hm with hm | hm
          · exact hturns.within m hm
          · rw [List.mem_singleton.mp hm]
            omega
        · rw [turnsLeft_concat, turnsLeft_concat, hturns.turnsLeft, Nat.succ_mul]
          omega
    · rw [carry_below hlimit]
      refine .inr ⟨front ++ [n + 1], rfl, by simp, ?_, ?_⟩
      · intro m hm
        rcases List.mem_append.mp hm with hm | hm
        · exact hfront m hm
        · rw [List.mem_singleton.mp hm]
          omega
      · rw [turnsLeft_concat, turnsLeft_concat]
        omega
termination_by front.length
decreasing_by simp_all

variable {limit : Nat}

/-- A carry from the last count turns the odometer. -/
theorem turns_of_carry (o : Odometer limit) {next : List Nat}
    (h : carry limit o.counts o.counts.length = some next) : Turns limit o.counts next := by
  rcases carry_cases [] o.within with ⟨hnone, -⟩ | ⟨next', hsome, hturns⟩
  · rw [List.append_nil, h] at hnone
    cases hnone
  · rw [List.append_nil, List.append_nil, h] at hsome
    obtain rfl := Option.some.inj hsome
    exact hturns

/-- Turns the odometer by one, the last count first; with all counts at the limit it is at its
end. -/
def advance (o : Odometer limit) : Option (Odometer limit) :=
  match h : carry limit o.counts o.counts.length with
  | none => none
  | some next => some ⟨next, (o.turns_of_carry h).within⟩

theorem turns_of_advance {o next : Odometer limit} (h : o.advance = some next) :
    Turns limit o.counts next.counts := by
  rw [advance] at h
  split at h
  · cases h
  · obtain rfl := Option.some.inj h
    exact o.turns_of_carry ‹_›

/-- All counts from here to the end. -/
def passes (o : Odometer limit) : List (List Nat) :=
  match h : o.advance with
  | none => [o.counts]
  | some next =>
    have : turnsLeft limit next.counts < turnsLeft limit o.counts := by
      simp [(turns_of_advance h).turnsLeft]
    o.counts :: next.passes
termination_by turnsLeft limit o.counts

end Odometer

/-- The expansion in which each slot is filled by as many agents as counted for it. -/
def fill (slots : List Text) (counts : List Nat) : List Text :=
  (slots.zipWith (fun action n => List.replicate n action) counts).flatten

/-- Lists of names, each in a cell of its own that can be overwritten. -/
structure NameCells where
  lists : List (List Text)

namespace NameCells

def read (cell : Nat) : StateM NameCells (List Text) := fun c =>
  (c.lists[cell]?.getD [], c)

/-- Copies a list into a new cell. -/
def copy (cell : Nat) : StateM NameCells Nat := fun c =>
  (c.lists.length, ⟨c.lists ++ [c.lists[cell]?.getD []]⟩)

def sort (cell : Nat) : StateM NameCells Unit := fun c =>
  ((), ⟨c.lists.modify cell Text.sort⟩)

end NameCells

/-- The expansions of the slots in a cell. They are sorted in a copy of their own. -/
def expandCell (cell : Nat) (limit : Int) : StateM NameCells (List (List Text)) := do
  let copied ← NameCells.copy cell
  NameCells.sort copied
  let sorted ← NameCells.read copied
  let first := Odometer.start (one_le_slotLimit limit) sorted.length
  return first.passes.map (fill sorted)

/-- The expansions of the slots, given in any order. -/
@[irreducible]
def expand (slots : List Text) (limit : Int) : List (List Text) :=
  (expandCell 0 limit ⟨[slots]⟩).1

/-- The other actions of an expansion, sorted: all but the occurrence at a position. -/
def coOccurring (expansion : List Text) (i : Nat) : List Text :=
  Text.sort (expansion.eraseIdx i)

end Population
