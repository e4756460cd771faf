import Population.Proofs.CounterSystem.Drafting
import Population.Proofs.CounterSystem.Reachability
import Mathlib.Data.List.Induction

/-!
# Drafts that are edited directly

A draft whose lists are edited directly keeps its tables.  A declaration notices
that by comparing sizes, so it is misled when a list has lost names and got others
in their place.  Then it refuses names that are free and accepts names that are
taken.  Until this happens every declaration answers by the lists, whatever edits
come in between.  Looking a name up never goes wrong, since the element at the
position that a table gives must have the name.
-/

namespace Population

/-- The names of the counters and of the transitions of a system. -/
structure NameLists where
  counters : List Text
  transitions : List Text
  deriving DecidableEq

/-- The names of a system. -/
def CounterSystem.nameLists (s : CounterSystem) : NameLists :=
  ⟨s.counterNames, s.transitions.map (·.name)⟩

namespace Draft

/-! ## Answers that match the lists -/

/-- What is found by a name is an element of that name, and nothing is found only
where there is none. -/
structure Finds (d : Draft) : Prop where
  counter : ∀ name v, d.findCounter name = some v → v ∈ d.system.counters ∧ v.name = name
  no_counter : ∀ name, d.findCounter name = none ↔ name ∉ d.system.counterNames
  transition : ∀ name t, d.findTransition name = some t →
    t ∈ d.system.transitions ∧ t.name = name
  no_transition : ∀ name, d.findTransition name = none ↔
    name ∉ d.system.transitions.map (·.name)

/-- Names are distinct, a declaration is accepted exactly for a valid name that is
not in its list, and a name finds the element that has it. -/
structure Exact (d : Draft) : Prop where
  counters_nodup : d.system.counterNames.Nodup
  transitions_nodup : (d.system.transitions.map (·.name)).Nodup
  declare_iff : ∀ name initial, (∃ d', d.declare name initial = .ok d') ↔
    Name.isValid name = true ∧ name ∉ d.system.counterNames
  add_iff : ∀ t, (∃ d', d.addTransition t = .ok d') ↔
    Name.isValid t.name = true ∧ t.name ∉ d.system.transitions.map (·.name)
  findCounter_iff : ∀ name v, d.findCounter name = some v ↔
    v ∈ d.system.counters ∧ v.name = name
  findTransition_iff : ∀ name t, d.findTransition name = some t ↔
    t ∈ d.system.transitions ∧ t.name = name

section Finding

variable {α : Type} {nameOf : α → Text} {positions : Option Positions} {xs : List α} {name : Text}

theorem mem_of_find? {x : α} (h : find? nameOf positions xs name = some x) :
    x ∈ xs ∧ nameOf x = name := by
  rcases Option.or_eq_some_iff.mp h with hhinted | ⟨-, hscan⟩
  · simp only [Option.bind_eq_bind, Option.bind_eq_some_iff,
      Option.ite_none_right_eq_some] at hhinted
    obtain ⟨p, -, i, -, y, hy, hname, hx⟩ := hhinted
    cases hx
    exact ⟨List.mem_of_getElem? hy, hname⟩
  · exact ⟨List.mem_of_find?_eq_some hscan, by simpa using List.find?_some hscan⟩

theorem find?_eq_none_iff : find? nameOf positions xs name = none ↔ name ∉ xs.map nameOf := by
  constructor
  · intro h hmem
    obtain ⟨x, hx, rfl⟩ := List.mem_map.mp hmem
    have hscan := (Option.or_eq_none_iff.mp h).2
    simpa using List.find?_eq_none.mp hscan x hx
  · intro h
    rw [Option.eq_none_iff_forall_ne_some]
    intro x hx
    obtain ⟨hmem, rfl⟩ := mem_of_find? hx
    exact h (List.mem_map_of_mem hmem)

/-- Where names are distinct, a name finds its bearer. -/
theorem find?_eq_some_iff (hnodup : (xs.map nameOf).Nodup) {x : α} :
    find? nameOf positions xs name = some x ↔ x ∈ xs ∧ nameOf x = name := by
  refine ⟨mem_of_find?, ?_⟩
  rintro ⟨hx, rfl⟩
  cases hfound : find? nameOf positions xs (nameOf x) with
  | none => exact absurd (List.mem_map_of_mem hx) (find?_eq_none_iff.mp hfound)
  | some y =>
      obtain ⟨hy, hname⟩ := mem_of_find? hfound
      rw [List.inj_on_of_nodup_map hnodup hy hx hname]

theorem finds (d : Draft) : d.Finds where
  counter _ _ := mem_of_find?
  no_counter _ := find?_eq_none_iff
  transition _ _ := mem_of_find?
  no_transition _ := find?_eq_none_iff

end Finding

end Draft

/-! ## Tables and names -/

namespace Positions

theorem lists_foldl_insert
    {names : List Text} {p : Positions} {known : List Text} (h : p.Lists known) (k : Nat)
    (hnodup : (known ++ names).Nodup) :
    Lists ((names.zipIdx k).foldl (fun p (n, i) => p.insert n i) p) (known ++ names) := by
  induction names generalizing p known k with
  | nil => simpa using h
  | cons n rest ih =>
      have hfresh : n ∉ known := fun hmem =>
        (List.nodup_append'.mp hnodup).2.2 hmem List.mem_cons_self
      have hnext := ih (h.insert hfresh k) (k + 1) (by simpa using hnodup)
      simpa using hnext

/-- Tables made from distinct names list them. -/
theorem lists_ofNames {names : List Text} (hnodup : names.Nodup) :
    (ofNames names).Lists names :=
  lists_foldl_insert lists_empty 0 hnodup

/-- The table has as many names as the list and tells which identifiers are in it. -/
structure Knows (p : Positions) (names : List Text) : Prop where
  contains_iff : ∀ n, Name.isValid n = true → (p.contains n = true ↔ n ∈ names)
  size_eq : p.size = names.length

theorem Lists.knows {p : Positions} {names : List Text} (h : p.Lists names) : p.Knows names where
  contains_iff n _ := h.contains_iff n
  size_eq := h.size_eq

theorem Knows.insert
    {p : Positions} {names : List Text} (h : p.Knows names) {n : Text}
    (hvalid : Name.isValid n = true) (hn : n ∉ names) (i : Nat) :
    Knows (Std.TreeMap.insert p n i) (names ++ [n]) where
  contains_iff k hk := by
    rw [Std.TreeMap.contains_insert, Bool.or_eq_true, h.contains_iff k hk, beq_iff_eq,
      Std.LawfulEqCmp.compare_eq_iff_eq, List.mem_append, List.mem_singleton]
    tauto
  size_eq := by
    have hnew : ¬p.contains n = true := fun hmem => hn ((h.contains_iff n hvalid).mp hmem)
    rw [Std.TreeMap.size_insert, if_neg hnew, h.size_eq, List.length_append,
      List.length_singleton]

end Positions

/-- The tables know the names. -/
structure Tables.Know (t : Tables) (names : NameLists) : Prop where
  counters : t.counters.Knows names.counters
  transitions : t.transitions.Knows names.transitions

namespace Draft

section Answers

variable {d : Draft}

/-- A valid name is accepted unless the table has it. -/
theorem exists_declare_iff (d : Draft) (name : Text) (initial : Int64) :
    (∃ d', d.declare name initial = .ok d') ↔
      Name.isValid name = true ∧ ¬d.currentTables.counters.contains name = true := by
  cases hvalid : Name.isValid name <;>
    cases hknown : d.currentTables.counters.contains name <;>
      simp [declare, hvalid, hknown]

theorem exists_addTransition_iff (d : Draft) (t : Transition) :
    (∃ d', d.addTransition t = .ok d') ↔
      Name.isValid t.name = true ∧ ¬d.currentTables.transitions.contains t.name = true := by
  cases hvalid : Name.isValid t.name <;>
    cases hknown : d.currentTables.transitions.contains t.name <;>
      simp [addTransition, hvalid, hknown]

/-- Tables that know distinct names answer by the lists. -/
theorem exact_of_know
    (hcounters : d.system.counterNames.Nodup)
    (htransitions : (d.system.transitions.map (·.name)).Nodup)
    (h : d.currentTables.Know d.system.nameLists) : d.Exact where
  counters_nodup := hcounters
  transitions_nodup := htransitions
  declare_iff name initial := by
    rw [exists_declare_iff]
    exact and_congr_right fun hvalid => not_congr (h.counters.contains_iff name hvalid)
  add_iff t := by
    rw [exists_addTransition_iff]
    exact and_congr_right fun hvalid => not_congr (h.transitions.contains_iff t.name hvalid)
  findCounter_iff _ _ := find?_eq_some_iff hcounters
  findTransition_iff _ _ := find?_eq_some_iff htransitions

/-- Where the answers match the lists, the tables hold the identifiers of the lists. -/
theorem Exact.contains_iff (h : d.Exact) {n : Text} (hvalid : Name.isValid n = true) :
    (d.currentTables.counters.contains n = true ↔ n ∈ d.system.counterNames) ∧
      (d.currentTables.transitions.contains n = true ↔
        n ∈ d.system.transitions.map (·.name)) := by
  have hcounter := (exists_declare_iff d n 0).symm.trans (h.declare_iff n 0)
  have htransition := (exists_addTransition_iff d ⟨n, [], []⟩).symm.trans (h.add_iff ⟨n, [], []⟩)
  rw [and_congr_right_iff] at hcounter htransition
  exact ⟨not_iff_not.mp (hcounter hvalid), not_iff_not.mp (htransition hvalid)⟩

end Answers

end Draft

/-! ## Histories -/

namespace Draft

/-- Whether a change makes the draft consult its tables: a misspelt name is refused
before that. -/
def Edit.consults : Edit → Bool
  | declare name _ => Name.isValid name
  | add t => Name.isValid t.name
  | _ => false

/-- A name that is appended directly is a new one. -/
def Edit.Fresh (d : Draft) : Edit → Prop
  | appendCounter v => v.name ∉ d.system.counterNames
  | appendTransition t => t.name ∉ d.system.transitions.map (·.name)
  | _ => True

/-- A draft, and the names that it had when it last consulted its tables. -/
structure Watched where
  draft : Draft
  seen : Option NameLists

namespace Watched

/-- Carries out a change and notes the names when tables are consulted. -/
def step (w : Watched) (e : Edit) : Watched where
  draft := (w.draft.edit e).1
  seen := if e.consults then some (w.draft.edit e).1.system.nameLists else w.seen

/-- Carries out changes one after the other. -/
def run (w : Watched) (es : List Edit) : Watched :=
  es.foldl step w

/-- A new draft, whose tables are empty like its lists. -/
def new (name : Text) : Watched :=
  ⟨.new name, some ⟨[], []⟩⟩

/-- The draft of a system that is given as a whole. -/
def ofSystem (s : CounterSystem) : Watched :=
  ⟨.ofSystem s, none⟩

/-- A draft before any change. -/
inductive Begins : Watched → Prop
  | new (name : Text) : Begins (new name)
  | ofSystem (s : CounterSystem) (hcounters : s.counterNames.Nodup)
      (htransitions : (s.transitions.map (·.name)).Nodup) : Begins (ofSystem s)

/-- Both lists are as long as when the tables were last consulted, and yet one of
them does not hold the same identifiers. -/
def Misled (w : Watched) : Prop :=
  ∃ names, w.seen = some names ∧
    names.counters.length = w.draft.system.counters.length ∧
    names.transitions.length = w.draft.system.transitions.length ∧
    ∃ n, Name.isValid n = true ∧
      ¬((n ∈ names.counters ↔ n ∈ w.draft.system.counterNames) ∧
        (n ∈ names.transitions ↔ n ∈ w.draft.system.transitions.map (·.name)))

/-- Names are distinct, and the tables know those that were last seen. -/
structure Synced (w : Watched) : Prop where
  counters_nodup : w.draft.system.counterNames.Nodup
  transitions_nodup : (w.draft.system.transitions.map (·.name)).Nodup
  tables : w.draft.tables = none ∧ w.seen = none ∨
    ∃ t names, w.draft.tables = some t ∧ w.seen = some names ∧ t.Know names

variable {w : Watched}

theorem Begins.synced (h : w.Begins) : w.Synced := by
  cases h with
  | new name =>
      have hempty : Positions.Knows ∅ [] := Positions.lists_empty.knows
      exact ⟨List.nodup_nil, List.nodup_nil, .inr ⟨_, _, rfl, rfl, hempty, hempty⟩⟩
  | ofSystem s hcounters htransitions => exact ⟨hcounters, htransitions, .inl ⟨rfl, rfl⟩⟩

/-- Unless it is misled, a draft consults tables that know its names. -/
theorem Synced.know_currentTables (h : w.Synced) (hclear : ¬w.Misled) :
    w.draft.currentTables.Know w.draft.system.nameLists := by
  have hfresh : (freshTables w.draft.system).Know w.draft.system.nameLists :=
    ⟨(Positions.lists_ofNames h.counters_nodup).knows,
      (Positions.lists_ofNames h.transitions_nodup).knows⟩
  rcases h.tables with ⟨hnone, -⟩ | ⟨t, names, htables, hseen, ht⟩
  · rw [currentTables, hnone]
    exact hfresh
  · rw [currentTables, htables]
    dsimp only
    split
    next hsizes =>
      rw [ht.counters.size_eq, ht.transitions.size_eq] at hsizes
      have hsame : ∀ n, Name.isValid n = true →
          (n ∈ names.counters ↔ n ∈ w.draft.system.counterNames) ∧
            (n ∈ names.transitions ↔ n ∈ w.draft.system.transitions.map (·.name)) := by
        intro n hn
        refine Decidable.byContradiction fun hdiffer => hclear ?_
        exact ⟨names, hseen, hsizes.1, hsizes.2, n, hn, hdiffer⟩
      refine ⟨⟨fun n hn => ?_, ?_⟩, ⟨fun n hn => ?_, ?_⟩⟩
      · exact (ht.counters.contains_iff n hn).trans (hsame n hn).1
      · simpa [ht.counters.size_eq, CounterSystem.nameLists, CounterSystem.counterNames]
          using hsizes.1
      · exact (ht.transitions.contains_iff n hn).trans (hsame n hn).2
      · simpa [ht.transitions.size_eq, CounterSystem.nameLists] using hsizes.2
    next => exact hfresh

theorem Synced.exact (h : w.Synced) (hclear : ¬w.Misled) : w.draft.Exact :=
  exact_of_know h.counters_nodup h.transitions_nodup (h.know_currentTables hclear)

/-- A draft that is misled gives a wrong answer about some name. -/
theorem Synced.not_exact (h : w.Synced) (hmisled : w.Misled) : ¬w.draft.Exact := by
  intro hexact
  obtain ⟨names, hseen, hcounters, htransitions, n, hvalid, hdiffer⟩ := hmisled
  rcases h.tables with ⟨-, hnone⟩ | ⟨t, known, htables, hknown, ht⟩
  · rw [hseen] at hnone
    cases hnone
  · obtain rfl : names = known := Option.some.inj (hseen.symm.trans hknown)
    have hcurrent : w.draft.currentTables = t := by
      rw [currentTables, htables]
      exact if_pos ⟨ht.counters.size_eq.trans hcounters,
        ht.transitions.size_eq.trans htransitions⟩
    obtain ⟨hcounter, htransition⟩ := hexact.contains_iff hvalid
    rw [hcurrent] at hcounter htransition
    exact hdiffer ⟨(ht.counters.contains_iff n hvalid).symm.trans hcounter,
      (ht.transitions.contains_iff n hvalid).symm.trans htransition⟩

/-- A draft that has just consulted its tables is not misled. -/
theorem not_misled_of_seen (h : w.seen = some w.draft.system.nameLists) : ¬w.Misled := by
  rintro ⟨names, hseen, -, -, n, -, hdiffer⟩
  obtain rfl := Option.some.inj (hseen.symm.trans h)
  exact hdiffer ⟨Iff.rfl, Iff.rfl⟩

/-! ## One change -/

/-- A misspelt name changes nothing. -/
theorem step_declare_of_not_valid
    (w : Watched) {name : Text} (hinvalid : Name.isValid name = false) (initial : Int64) :
    w.step (.declare name initial) = w := by
  simp [step, edit, Draft.declare, afterRefusal, DeclareFault.isSyntax, Edit.consults, hinvalid]

theorem step_add_of_not_valid
    (w : Watched) {t : Transition} (hinvalid : Name.isValid t.name = false) :
    w.step (.add t) = w := by
  simp [step, edit, Draft.addTransition, afterRefusal, DeclareFault.isSyntax, Edit.consults,
    hinvalid]

theorem Synced.declare
    (h : w.Synced) (hclear : ¬w.Misled) {name : Text} (hvalid : Name.isValid name = true)
    (initial : Int64) : (w.step (.declare name initial)).Synced := by
  have hknow := h.know_currentTables hclear
  have hcontains := hknow.counters.contains_iff name hvalid
  by_cases hmem : name ∈ w.draft.system.counterNames
  · have hstep : w.step (.declare name initial) =
        ⟨w.draft.refreshed, some w.draft.system.nameLists⟩ := by
      simp [step, edit, Draft.declare, afterRefusal, DeclareFault.isSyntax, Edit.consults, hvalid,
        hcontains.mpr hmem, refreshed]
    rw [hstep]
    exact ⟨h.counters_nodup, h.transitions_nodup, .inr ⟨_, _, rfl, rfl, hknow⟩⟩
  · have hnew : w.draft.currentTables.counters.contains name = false :=
      Bool.eq_false_iff.mpr (mt hcontains.mp hmem)
    have hknow' := hknow.counters.insert hvalid hmem w.draft.system.counters.length
    simp only [step, edit, Draft.declare, Edit.consults, hvalid, hnew]
    refine ⟨?_, h.transitions_nodup, .inr ⟨_, _, rfl, rfl, ?_, hknow.transitions⟩⟩
    · simpa [CounterSystem.counterNames] using h.counters_nodup.concat hmem
    · simpa [CounterSystem.nameLists, CounterSystem.counterNames] using hknow'

theorem Synced.add
    (h : w.Synced) (hclear : ¬w.Misled) {t : Transition} (hvalid : Name.isValid t.name = true) :
    (w.step (.add t)).Synced := by
  have hknow := h.know_currentTables hclear
  have hcontains := hknow.transitions.contains_iff t.name hvalid
  by_cases hmem : t.name ∈ w.draft.system.transitions.map (·.name)
  · have hstep : w.step (.add t) = ⟨w.draft.refreshed, some w.draft.system.nameLists⟩ := by
      simp [step, edit, Draft.addTransition, afterRefusal, DeclareFault.isSyntax, Edit.consults,
        hvalid, hcontains.mpr hmem, refreshed]
    rw [hstep]
    exact ⟨h.counters_nodup, h.transitions_nodup, .inr ⟨_, _, rfl, rfl, hknow⟩⟩
  · have hnew : w.draft.currentTables.transitions.contains t.name = false :=
      Bool.eq_false_iff.mpr (mt hcontains.mp hmem)
    have hknow' := hknow.transitions.insert hvalid hmem w.draft.system.transitions.length
    simp only [step, edit, Draft.addTransition, Edit.consults, hvalid, hnew]
    refine ⟨h.counters_nodup, ?_, .inr ⟨_, _, rfl, rfl, hknow.counters, ?_⟩⟩
    · simpa using h.transitions_nodup.concat hmem
    · simpa [CounterSystem.nameLists] using hknow'

/-- A change keeps the tables as known as they are, if it does not consult them or they
are not misleading. -/
theorem Synced.step
    (h : w.Synced) {e : Edit} (htrusted : e.consults = true → ¬w.Misled)
    (hfresh : e.Fresh w.draft) : (w.step e).Synced := by
  cases e with
  | declare name initial =>
      cases hvalid : Name.isValid name with
      | false =>
          rw [step_declare_of_not_valid w hvalid]
          exact h
      | true => exact h.declare (htrusted hvalid) hvalid initial
  | add t =>
      cases hvalid : Name.isValid t.name with
      | false =>
          rw [step_add_of_not_valid w hvalid]
          exact h
      | true => exact h.add (htrusted hvalid) hvalid
  | appendCounter v =>
      refine ⟨?_, h.transitions_nodup, h.tables⟩
      simpa [Watched.step, edit, Draft.appendCounter, CounterSystem.counterNames] using
        h.counters_nodup.concat hfresh
  | appendTransition t =>
      refine ⟨h.counters_nodup, ?_, h.tables⟩
      simpa [Watched.step, edit, Draft.appendTransition] using h.transitions_nodup.concat hfresh
  | popCounter =>
      exact ⟨h.counters_nodup.sublist ((List.dropLast_sublist _).map _), h.transitions_nodup,
        h.tables⟩
  | popTransition =>
      exact ⟨h.counters_nodup, h.transitions_nodup.sublist ((List.dropLast_sublist _).map _),
        h.tables⟩

/-! ## All changes -/

theorem Synced.run
    (h : w.Synced) {es : List Edit}
    (htrusted : ∀ p e, p ++ [e] <+: es → e.consults = true → ¬(w.run p).Misled)
    (hfresh : ∀ p e, p ++ [e] <+: es → e.Fresh (w.run p).draft) : (w.run es).Synced := by
  induction es using List.reverseRecOn with
  | nil => exact h
  | append_singleton es e ih =>
      have hbefore := ih (fun p e' hp => htrusted p e' (hp.trans (List.prefix_append _ _)))
        (fun p e' hp => hfresh p e' (hp.trans (List.prefix_append _ _)))
      have hlast := hbefore.step (htrusted es e List.prefix_rfl) (hfresh es e List.prefix_rfl)
      rwa [Watched.run, List.foldl_append]

end Watched

/-- A draft is looked up correctly whatever was done to it.  If its lists were only
edited directly with new names, and nothing was declared while it was misled, then
names are distinct and declarations answer by the lists exactly when it is not misled. -/
theorem exact_iff_not_misled
    {w : Watched} (hbegins : w.Begins) {es : List Edit}
    (hfresh : ∀ p e, p ++ [e] <+: es → e.Fresh (w.run p).draft)
    (htrusted : ∀ p e, p ++ [e] <+: es → e.consults = true → ¬(w.run p).Misled) :
    (w.run es).draft.Finds ∧ ((w.run es).draft.Exact ↔ ¬(w.run es).Misled) := by
  have hsynced := hbegins.synced.run htrusted hfresh
  exact ⟨finds _, fun hexact hmisled => hsynced.not_exact hmisled hexact, hsynced.exact⟩

/-- A counter is declared, dropped and replaced by a declared one. -/
def replacingEdits : List Edit :=
  [.declare "low" 0, .popCounter, .declare "high" 1]

theorem exact_iff_not_misled_replacing :
    (Watched.new "lift").Begins ∧
      (∀ p e, p ++ [e] <+: replacingEdits → e.Fresh ((Watched.new "lift").run p).draft) ∧
      (∀ p e, p ++ [e] <+: replacingEdits → e.consults = true →
        ¬((Watched.new "lift").run p).Misled) ∧
      ((Watched.new "lift").run replacingEdits).draft.Exact ∧
      ((Watched.new "lift").run replacingEdits).draft.system.counterNames = ["high"] := by
  have hfresh : ∀ p e, p ++ [e] <+: replacingEdits →
      e.Fresh ((Watched.new "lift").run p).draft := by
    rintro p e hp
    have he : e ∈ replacingEdits := hp.mem (by simp)
    simp only [replacingEdits, List.mem_cons, List.not_mem_nil, or_false] at he
    rcases he with rfl | rfl | rfl <;> trivial
  have htrusted : ∀ p e, p ++ [e] <+: replacingEdits → e.consults = true →
      ¬((Watched.new "lift").run p).Misled := by
    rintro p e ⟨q, hq⟩ -
    rcases p with _ | ⟨e₁, _ | ⟨e₂, _ | ⟨e₃, p⟩⟩⟩ <;> simp [replacingEdits] at hq
    · exact Watched.not_misled_of_seen (by decide +kernel)
    · obtain ⟨rfl, -⟩ := hq
      exact Watched.not_misled_of_seen (by decide +kernel)
    · obtain ⟨rfl, rfl, -⟩ := hq
      rintro ⟨names, hseen, hlength, -⟩
      obtain rfl : ⟨["low"], []⟩ = names := Option.some.inj hseen
      cases hlength
  have hlast : ¬((Watched.new "lift").run replacingEdits).Misled :=
    Watched.not_misled_of_seen (by decide +kernel)
  exact ⟨.new _, hfresh, htrusted,
    (exact_iff_not_misled (.new _) hfresh htrusted).2.mpr hlast, by decide +kernel⟩

/-- A counter is declared, dropped and replaced by an appended one. -/
def swappingEdits : List Edit :=
  [.declare "low" 0, .popCounter, .appendCounter ⟨"high", 1⟩]

/-- The table still has as many names as the list, so the name of the appended counter,
which was new then, is accepted again. -/
theorem swapped_counter_declared_again :
    (∀ p e, p ++ [e] <+: swappingEdits → e.Fresh ((Watched.new "lift").run p).draft) ∧
      Text.ofString "high" ∈ ((Watched.new "lift").run swappingEdits).draft.system.counterNames ∧
      ∃ d, ((Watched.new "lift").run swappingEdits).draft.declare "high" 2 = .ok d ∧
        d.system.counterNames = ["high", "high"] := by
  refine ⟨?_, by decide +kernel, _, rfl, by decide +kernel⟩
  rintro p e ⟨q, hq⟩
  rcases p with _ | ⟨e₁, _ | ⟨e₂, _ | ⟨e₃, p⟩⟩⟩ <;> simp [swappingEdits] at hq
  · rw [hq.1]
    trivial
  · rw [hq.2.1]
    trivial
  · obtain ⟨rfl, rfl, rfl, -⟩ := hq
    change Text.ofString "high" ∉ _
    decide +kernel

end Draft

end Population
