import Population.CounterSystem.Draft
import Mathlib.Data.List.Nodup
import Mathlib.Tactic.Tauto

/-!
# Drafts grow as told

As long as the tables of a draft list the names of its counters and transitions,
a declaration is refused for a bad or a known name only.  So distinct valid names
are accepted one after the other, and the draft ends up with everything that was
declared, in order.
-/

namespace Population

/-- A fold succeeds when each of its steps does, from what holds after the
steps before. -/
theorem exists_foldlM
    {ε σ α : Type} {f : σ → α → Except ε σ} {I : List α → σ → Prop} {xs : List α} {s : σ}
    (hstep : ∀ done x rest, xs = done ++ x :: rest → ∀ s, I done s →
      ∃ s', f s x = .ok s' ∧ I (done ++ [x]) s')
    (hstart : I [] s) : ∃ s', xs.foldlM f s = .ok s' ∧ I xs s' := by
  have hgeneral : ∀ rest done s, xs = done ++ rest → I done s →
      ∃ s', rest.foldlM f s = .ok s' ∧ I xs s' := by
    intro rest
    induction rest with
    | nil =>
        intro done s hxs hs
        rw [List.append_nil] at hxs
        exact ⟨s, rfl, hxs ▸ hs⟩
    | cons x rest ih =>
        intro done s hxs hs
        obtain ⟨s₁, hfirst, hs₁⟩ := hstep done x rest hxs s hs
        obtain ⟨s₂, hrest, hs₂⟩ := ih (done ++ [x]) s₁ (by simpa using hxs) hs₁
        refine ⟨s₂, ?_, hs₂⟩
        rw [List.foldlM_cons, hfirst]
        exact hrest
  exact hgeneral xs [] s rfl hstart

/-- What each step of a fold keeps holds of what a fold that succeeds ends with. -/
theorem of_foldlM
    {ε σ α : Type} {f : σ → α → Except ε σ} {I : List α → σ → Prop} {xs : List α} {s s' : σ}
    (hstep : ∀ done x s s', I done s → f s x = .ok s' → I (done ++ [x]) s')
    (hstart : I [] s) (hok : xs.foldlM f s = .ok s') : I xs s' := by
  have hgeneral : ∀ rest done s, I done s → rest.foldlM f s = .ok s' → I (done ++ rest) s' := by
    intro rest
    induction rest with
    | nil =>
        intro done s hs hok
        cases hok
        rwa [List.append_nil]
    | cons x rest ih =>
        intro done s hs hok
        rw [List.foldlM_cons] at hok
        cases hfirst : f s x with
        | error e =>
            rw [hfirst] at hok
            cases hok
        | ok s₁ =>
            rw [hfirst] at hok
            have hrest := ih (done ++ [x]) s₁ (hstep done x s s₁ hs hfirst) hok
            simpa using hrest
  exact hgeneral xs [] s hstart hok

namespace Positions

/-- The positions are known of exactly these names. -/
structure Lists (p : Positions) (names : List Text) : Prop where
  contains_iff : ∀ n, p.contains n = true ↔ n ∈ names
  size_eq : p.size = names.length

theorem lists_empty : Lists ∅ [] where
  contains_iff n := by simp
  size_eq := rfl

theorem Lists.contains_eq_false
    {p : Positions} {names : List Text} (h : p.Lists names) {n : Text} (hn : n ∉ names) :
    p.contains n = false := by
  rw [Bool.eq_false_iff]
  exact fun hcontains => hn ((h.contains_iff n).mp hcontains)

theorem Lists.insert
    {p : Positions} {names : List Text} (h : p.Lists names) {n : Text} (hn : n ∉ names)
    (i : Nat) : Lists (Std.TreeMap.insert p n i) (names ++ [n]) where
  contains_iff k := by
    rw [Std.TreeMap.contains_insert, Bool.or_eq_true, h.contains_iff, beq_iff_eq,
      Std.LawfulEqCmp.compare_eq_iff_eq, List.mem_append, List.mem_singleton]
    tauto
  size_eq := by
    rw [Std.TreeMap.size_insert, if_neg (fun hmem => hn ((h.contains_iff n).mp hmem)),
      h.size_eq, List.length_append, List.length_singleton]

end Positions

namespace Draft

/-- The tables list the names of the system. -/
structure Tabled (d : Draft) (t : Tables) : Prop where
  tables_eq : d.tables = some t
  counters : t.counters.Lists d.system.counterNames
  transitions : t.transitions.Lists (d.system.transitions.map (·.name))

theorem Tabled.currentTables_eq {d : Draft} {t : Tables} (h : d.Tabled t) :
    d.currentTables = t := by
  have hcounters : t.counters.size = d.system.counters.length := by
    rw [h.counters.size_eq, CounterSystem.counterNames, List.length_map]
  have htransitions : t.transitions.size = d.system.transitions.length := by
    rw [h.transitions.size_eq, List.length_map]
  rw [currentTables, h.tables_eq]
  exact if_pos ⟨hcounters, htransitions⟩

theorem tabled_new (name : Text) : (new name).Tabled ⟨∅, ∅⟩ where
  tables_eq := rfl
  counters := Positions.lists_empty
  transitions := Positions.lists_empty

variable {d : Draft} {t : Tables}

theorem Tabled.declare
    (h : d.Tabled t) {v : Counter} (hvalid : Name.isValid v.name = true)
    (hfresh : v.name ∉ d.system.counterNames) :
    ∃ d' t', d.declare v.name v.initial = .ok d' ∧ d'.Tabled t' ∧
      d'.system = { d.system with counters := d.system.counters ++ [v] } := by
  have hunknown : t.counters.contains v.name = false := h.counters.contains_eq_false hfresh
  let t' : Tables := { t with counters := t.counters.insert v.name d.system.counters.length }
  refine ⟨⟨{ d.system with counters := d.system.counters ++ [v] }, some t'⟩, t', ?_,
    ⟨rfl, ?_, h.transitions⟩, rfl⟩
  · simp only [Draft.declare, hvalid, h.currentTables_eq, hunknown]
    rfl
  · simp only [CounterSystem.counterNames, List.map_append]
    exact h.counters.insert hfresh _

theorem Tabled.addTransition
    (h : d.Tabled t) {tr : Transition} (hvalid : Name.isValid tr.name = true)
    (hfresh : tr.name ∉ d.system.transitions.map (·.name)) :
    ∃ d' t', d.addTransition tr = .ok d' ∧ d'.Tabled t' ∧
      d'.system = { d.system with transitions := d.system.transitions ++ [tr] } := by
  have hunknown : t.transitions.contains tr.name = false :=
    h.transitions.contains_eq_false hfresh
  let t' : Tables :=
    { t with transitions := t.transitions.insert tr.name d.system.transitions.length }
  refine ⟨⟨{ d.system with transitions := d.system.transitions ++ [tr] }, some t'⟩, t', ?_,
    ⟨rfl, h.counters, ?_⟩, rfl⟩
  · simp only [Draft.addTransition, hvalid, h.currentTables_eq, hunknown]
    rfl
  · simp only [List.map_append]
    exact h.transitions.insert hfresh _

/-- A declaration is accepted for a valid name that is not known yet. -/
theorem Tabled.of_declare
    (h : d.Tabled t) {d' : Draft} {name : Text} {initial : Int64}
    (hok : d.declare name initial = .ok d') :
    Name.isValid name = true ∧ name ∉ d.system.counterNames ∧ (∃ t', d'.Tabled t') ∧
      d'.system = { d.system with counters := d.system.counters ++ [⟨name, initial⟩] } := by
  have hvalid : Name.isValid name = true := by
    by_contra hinvalid
    rw [Bool.not_eq_true] at hinvalid
    simp [Draft.declare, hinvalid] at hok
  have hfresh : name ∉ d.system.counterNames := by
    intro hknown
    have hcontains := (h.counters.contains_iff name).mpr hknown
    simp [Draft.declare, hvalid, h.currentTables_eq, hcontains] at hok
  obtain ⟨d₁, t₁, hdeclare, htabled, hsystem⟩ := h.declare (v := ⟨name, initial⟩) hvalid hfresh
  obtain rfl : d₁ = d' := Except.ok.inj (hdeclare.symm.trans hok)
  exact ⟨hvalid, hfresh, ⟨t₁, htabled⟩, hsystem⟩

theorem Tabled.of_addTransition
    (h : d.Tabled t) {d' : Draft} {tr : Transition} (hok : d.addTransition tr = .ok d') :
    Name.isValid tr.name = true ∧ tr.name ∉ d.system.transitions.map (·.name) ∧
      (∃ t', d'.Tabled t') ∧
      d'.system = { d.system with transitions := d.system.transitions ++ [tr] } := by
  have hvalid : Name.isValid tr.name = true := by
    by_contra hinvalid
    rw [Bool.not_eq_true] at hinvalid
    simp [Draft.addTransition, hinvalid] at hok
  have hfresh : tr.name ∉ d.system.transitions.map (·.name) := by
    intro hknown
    have hcontains := (h.transitions.contains_iff tr.name).mpr hknown
    simp [Draft.addTransition, hvalid, h.currentTables_eq, hcontains] at hok
  obtain ⟨d₁, t₁, hadd, htabled, hsystem⟩ := h.addTransition hvalid hfresh
  obtain rfl : d₁ = d' := Except.ok.inj (hadd.symm.trans hok)
  exact ⟨hvalid, hfresh, ⟨t₁, htabled⟩, hsystem⟩

/-- Counters of distinct valid names are all declared. -/
theorem Tabled.declareAll
    (h : d.Tabled t) {vs : List Counter} (hvalid : ∀ v ∈ vs, Name.isValid v.name = true)
    (hnodup : (d.system.counterNames ++ vs.map (·.name)).Nodup) :
    ∃ d', vs.foldlM (fun d v => d.declare v.name v.initial) d = .ok d' ∧
      (∃ t', d'.Tabled t') ∧
      d'.system = { d.system with counters := d.system.counters ++ vs } := by
  refine exists_foldlM (I := fun done (e : Draft) => (∃ t', e.Tabled t') ∧
    e.system = { d.system with counters := d.system.counters ++ done }) ?_ ⟨⟨t, h⟩, by simp⟩
  rintro done v rest rfl e ⟨⟨t', he⟩, hsystem⟩
  have hfresh : v.name ∉ e.system.counterNames := by
    rw [hsystem]
    simp only [CounterSystem.counterNames, List.map_append, List.map_cons] at hnodup ⊢
    rw [← List.append_assoc] at hnodup
    intro hmem
    exact (List.nodup_append'.mp hnodup).2.2 hmem List.mem_cons_self
  obtain ⟨e', t'', hdeclare, htabled, hsystem'⟩ := he.declare (hvalid v (by simp)) hfresh
  refine ⟨e', hdeclare, ⟨t'', htabled⟩, ?_⟩
  rw [hsystem', hsystem, List.append_assoc]

/-- Transitions of distinct valid names are all added. -/
theorem Tabled.addAll
    (h : d.Tabled t) {ts : List Transition} (hvalid : ∀ u ∈ ts, Name.isValid u.name = true)
    (hnodup : (d.system.transitions.map (·.name) ++ ts.map (·.name)).Nodup) :
    ∃ d', ts.foldlM (fun d u => d.addTransition u) d = .ok d' ∧
      (∃ t', d'.Tabled t') ∧
      d'.system = { d.system with transitions := d.system.transitions ++ ts } := by
  refine exists_foldlM (I := fun done (e : Draft) => (∃ t', e.Tabled t') ∧
    e.system = { d.system with transitions := d.system.transitions ++ done }) ?_
    ⟨⟨t, h⟩, by simp⟩
  rintro done u rest rfl e ⟨⟨t', he⟩, hsystem⟩
  have hfresh : u.name ∉ e.system.transitions.map (·.name) := by
    rw [hsystem]
    simp only [List.map_append, List.map_cons] at hnodup ⊢
    rw [← List.append_assoc] at hnodup
    intro hmem
    exact (List.nodup_append'.mp hnodup).2.2 hmem List.mem_cons_self
  obtain ⟨e', t'', hadd, htabled, hsystem'⟩ := he.addTransition (hvalid u (by simp)) hfresh
  refine ⟨e', hadd, ⟨t'', htabled⟩, ?_⟩
  rw [hsystem', hsystem, List.append_assoc]

/-- Where all declarations are accepted, the draft has grown by these counters. -/
theorem Tabled.of_declareAll
    (h : d.Tabled t) {vs : List Counter} {d' : Draft}
    (hok : vs.foldlM (fun d v => d.declare v.name v.initial) d = .ok d') :
    (∃ t', d'.Tabled t') ∧
      d'.system = { d.system with counters := d.system.counters ++ vs } := by
  refine of_foldlM (I := fun done (e : Draft) => (∃ t', e.Tabled t') ∧
    e.system = { d.system with counters := d.system.counters ++ done }) ?_ ⟨⟨t, h⟩, by simp⟩ hok
  rintro done v e e' ⟨⟨t', he⟩, hsystem⟩ hdeclare
  obtain ⟨-, -, htabled, hsystem'⟩ := he.of_declare hdeclare
  refine ⟨htabled, ?_⟩
  rw [hsystem', hsystem, List.append_assoc]

theorem Tabled.of_addAll
    (h : d.Tabled t) {ts : List Transition} {d' : Draft}
    (hok : ts.foldlM (fun d u => d.addTransition u) d = .ok d') :
    (∃ t', d'.Tabled t') ∧
      d'.system = { d.system with transitions := d.system.transitions ++ ts } := by
  refine of_foldlM (I := fun done (e : Draft) => (∃ t', e.Tabled t') ∧
    e.system = { d.system with transitions := d.system.transitions ++ done }) ?_
    ⟨⟨t, h⟩, by simp⟩ hok
  rintro done u e e' ⟨⟨t', he⟩, hsystem⟩ hadd
  obtain ⟨-, -, htabled, hsystem'⟩ := he.of_addTransition hadd
  refine ⟨htabled, ?_⟩
  rw [hsystem', hsystem, List.append_assoc]

end Draft

end Population
