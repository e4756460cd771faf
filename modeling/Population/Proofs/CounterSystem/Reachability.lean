import Population.CounterSystem.Basic
import Population.Proofs.CounterSystem.Updates

/-!
# Reachable markings

A marking is reachable when finitely many firings lead to it from the initial
marking.  A firing sequence given by names is replayed by `run?`, which fails at
the first transition that is not fireable.
-/

namespace Population

/-- Where names are distinct, looking for a name finds its bearer. -/
theorem find?_name_eq_some
    {α : Type} {name : α → Text} {xs : List α} (hnodup : (xs.map name).Nodup)
    {x : α} (hx : x ∈ xs) : (xs.find? fun y => name y == name x) = some x := by
  cases hfound : xs.find? fun y => name y == name x with
  | none =>
      have hnone := List.find?_eq_none.mp hfound x hx
      simp at hnone
  | some y =>
      have hy : y ∈ xs := List.mem_of_find?_eq_some hfound
      have hname : name y = name x := by simpa using List.find?_some hfound
      rw [List.inj_on_of_nodup_map hnodup hy hx hname]

/-- When a transition fires, and what it leaves behind. -/
theorem Transition.fire?_eq_some_iff {t : Transition} {m next : Marking} :
    t.fire? m = some next ↔
      t.guard.holds m = true ∧ next = t.updates.apply m ∧ next.nonNegative = true := by
  unfold Transition.fire?
  by_cases hguard : t.guard.holds m = true
  · by_cases hnext : (t.updates.apply m).nonNegative = true
    · simp only [hguard, hnext, if_true, Option.some.injEq, true_and]
      constructor
      · rintro rfl
        exact ⟨rfl, hnext⟩
      · rintro ⟨rfl, -⟩
        rfl
    · simp only [hguard, hnext, if_true, true_and]
      constructor
      · simp
      · rintro ⟨rfl, hnonneg⟩
        exact absurd hnonneg hnext
  · simp [hguard]

namespace CounterSystem

/-- Finitely many firings lead from the initial marking to this one. -/
inductive Reachable (s : CounterSystem) : Marking → Prop
  | initial : Reachable s s.initial
  | fire {m next : Marking} {t : Transition}
      (hm : Reachable s m) (ht : t ∈ s.transitions) (hfire : t.fire? m = some next) :
      Reachable s next

/-- Fires the transition of that name. -/
def fireNamed? (s : CounterSystem) (name : Text) (m : Marking) : Option Marking :=
  (s.transitions.find? fun t => t.name == name).bind fun t => t.fire? m

/-- Fires the named transitions one after the other. -/
def run? (s : CounterSystem) : List Text → Marking → Option Marking
  | [], m => some m
  | name :: rest, m => (s.fireNamed? name m).bind (run? s rest)

theorem run?_cons_eq_some_iff
    {s : CounterSystem} {name : Text} {rest : List Text} {m final : Marking} :
    s.run? (name :: rest) m = some final ↔
      ∃ next, s.fireNamed? name m = some next ∧ s.run? rest next = some final :=
  Option.bind_eq_some_iff

theorem exists_transition_of_fireNamed?
    {s : CounterSystem} {name : Text} {m next : Marking}
    (h : s.fireNamed? name m = some next) :
    ∃ t ∈ s.transitions, t.name = name ∧ t.fire? m = some next := by
  obtain ⟨t, hfind, hfire⟩ := Option.bind_eq_some_iff.mp h
  exact ⟨t, List.mem_of_find?_eq_some hfind, by simpa using List.find?_some hfind, hfire⟩

/-- Where names are distinct, a name stands for its transition. -/
theorem fireNamed?_of_mem
    {s : CounterSystem} (hnodup : (s.transitions.map (·.name)).Nodup)
    {t : Transition} (ht : t ∈ s.transitions) (m : Marking) :
    s.fireNamed? t.name m = t.fire? m := by
  rw [fireNamed?, find?_name_eq_some hnodup ht, Option.bind_some]

theorem run?_append (s : CounterSystem) (earlier later : List Text) (m : Marking) :
    s.run? (earlier ++ later) m = (s.run? earlier m).bind (s.run? later) := by
  induction earlier generalizing m with
  | nil => rfl
  | cons name rest ih =>
      rw [List.cons_append, run?, run?, Option.bind_assoc]
      exact Option.bind_congr fun next _ => ih next

theorem run?_concat_eq_some_iff
    {s : CounterSystem} {names : List Text} {name : Text} {m final : Marking} :
    s.run? (names ++ [name]) m = some final ↔
      ∃ before, s.run? names m = some before ∧ s.fireNamed? name before = some final := by
  rw [run?_append, Option.bind_eq_some_iff]
  simp [run?]

/-- Where names are distinct, a firing sequence leads to every reachable marking. -/
theorem Reachable.exists_run
    {s : CounterSystem} (hnodup : (s.transitions.map (·.name)).Nodup) {m : Marking}
    (hm : s.Reachable m) : ∃ names, s.run? names s.initial = some m := by
  induction hm with
  | initial => exact ⟨[], rfl⟩
  | @fire m next t _ ht hfire ih =>
      obtain ⟨names, hrun⟩ := ih
      refine ⟨names ++ [t.name], run?_concat_eq_some_iff.mpr ⟨m, hrun, ?_⟩⟩
      rw [fireNamed?_of_mem hnodup ht, hfire]

/-- What a firing sequence reaches from a reachable marking is reachable. -/
theorem Reachable.run
    {s : CounterSystem} {names : List Text} {m final : Marking}
    (hm : s.Reachable m) (h : s.run? names m = some final) : s.Reachable final := by
  induction names generalizing m with
  | nil =>
      cases h
      exact hm
  | cons name rest ih =>
      obtain ⟨next, hfirst, hrest⟩ := run?_cons_eq_some_iff.mp h
      obtain ⟨t, ht, -, hfire⟩ := exists_transition_of_fireNamed? hfirst
      exact ih (hm.fire ht hfire) hrest

/-- The firings lead to a wanted marking, and no fewer do. -/
structure ShortestRun (s : CounterSystem) (wanted : Marking → Bool) (names : List Text) :
    Prop where
  leads : ∃ m, s.run? names s.initial = some m ∧ wanted m = true
  minimal : ∀ others m, s.run? others s.initial = some m → wanted m = true →
    names.length ≤ others.length

/-- A set that holds the initial marking and is closed under firing holds every
reachable marking. -/
theorem Reachable.mem_of_closed
    {s : CounterSystem} {seen : List Marking} (hinitial : s.initial ∈ seen)
    (hclosed : ∀ m ∈ seen, ∀ step ∈ s.fireable m, step.marking ∈ seen) {m : Marking}
    (hm : s.Reachable m) : m ∈ seen := by
  induction hm with
  | initial => exact hinitial
  | @fire m next t _ ht hfire ih =>
      have hstep : (⟨t.name, next⟩ : Step) ∈ s.fireable m :=
        List.mem_filterMap.mpr ⟨t, ht, by rw [hfire, Option.map_some]⟩
      exact hclosed m ih _ hstep

/-- A firing sequence that comes to satisfy a condition has a first firing that
does. -/
theorem exists_first_firing
    {s : CounterSystem} {P : Marking → Prop} {names : List Text} {m final : Marking}
    (hstart : ¬P m) (hrun : s.run? names m = some final) (hfinal : P final) :
    ∃ earlier name later before after, names = earlier ++ name :: later ∧
      s.run? earlier m = some before ∧ s.fireNamed? name before = some after ∧
      ¬P before ∧ P after := by
  induction names generalizing m with
  | nil =>
      cases hrun
      exact absurd hfinal hstart
  | cons name rest ih =>
      obtain ⟨next, hfirst, hrest⟩ := run?_cons_eq_some_iff.mp hrun
      by_cases hnext : P next
      · exact ⟨[], name, rest, m, next, rfl, rfl, hfirst, hstart, hnext⟩
      · obtain ⟨earlier, name', later, before, after, rfl, hrun', hfire, hbefore, hafter⟩ :=
          ih hnext hrest
        exact ⟨name :: earlier, name', later, before, after, rfl,
          run?_cons_eq_some_iff.mpr ⟨next, hfirst, hrun'⟩, hfire, hbefore, hafter⟩

end CounterSystem

end Population
