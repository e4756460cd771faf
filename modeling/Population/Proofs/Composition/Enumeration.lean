import Population.Proofs.Composition.Deduplication
import Mathlib.Algebra.BigOperators.Ring.List
import Mathlib.Algebra.Ring.Nat
import Mathlib.Data.List.OfFn

/-!
# What each expansion contributes

Composition goes through the environment transitions, the expansions of each and
all choices of one local transition for every position.  Here each occurrence of
an expansion is looked at alone: it contributes as many global transitions as
there are choices, and these are the ones that are consistent position by
position; or some position has no candidate, and then it contributes nothing but
one diagnostic, about the first such position.
-/

namespace Population

/-! ## Candidates for a position -/

/-- The local transition can take a position of an expansion: it performs the
action that stands there while the environment performs `sync`, and it expects
the actions at all other positions. -/
structure LocalTransition.Suits
    (t : LocalTransition) (sync : Text) (expansion : List Text) (i : Nat) : Prop where
  action : expansion[i]? = some t.action
  sync : t.sync = sync
  concurrent : t.concurrent.Perm (expansion.eraseIdx i)

instance (t : LocalTransition) (sync : Text) (expansion : List Text) (i : Nat) :
    Decidable (t.Suits sync expansion i) :=
  decidable_of_iff
    (expansion[i]? = some t.action ∧ t.sync = sync ∧ t.concurrent.Perm (expansion.eraseIdx i))
    ⟨fun ⟨haction, hsync, hconcurrent⟩ => ⟨haction, hsync, hconcurrent⟩,
      fun ⟨haction, hsync, hconcurrent⟩ => ⟨haction, hsync, hconcurrent⟩⟩

namespace Description

/-- The local transitions that can take a position, in declaration order. -/
def suited (d : Description) (sync : Text) (expansion : List Text) (i : Nat) :
    List LocalTransition :=
  d.agent.transitions.filter fun t => decide (t.Suits sync expansion i)

/-- The global transitions that one occurrence of an expansion contributes. -/
def contributed (d : Description) (et : EnvironmentTransition) (expansion : List Text) :
    List GlobalTransition :=
  realized (realize (.ofList d.agent.transitions) et expansion)

end Description

section Candidates

variable {d : Description} {sync : Text} {expansion : List Text}

theorem LocalTransition.key_eq_iff_suits
    {t : LocalTransition} {i : Nat} {action : Text} (hi : expansion[i]? = some action) :
    t.key = .of action sync (coOccurring expansion i) ↔ t.Suits sync expansion i := by
  have hsorted : (coOccurring expansion i).Perm (expansion.eraseIdx i) := Text.sort_perm _
  rw [LocalTransition.key, TransitionKey.of_eq_of_iff]
  constructor
  · rintro ⟨rfl, hsync, hothers⟩
    exact ⟨hi, hsync, hothers.trans hsorted⟩
  · rintro ⟨haction, hsync, hothers⟩
    rw [hi] at haction
    exact ⟨(Option.some.inj haction).symm, hsync, hothers.trans hsorted.symm⟩

/-- The index finds the candidates for a position. -/
theorem lookup_eq_suited {i : Nat} {action : Text} (hi : expansion[i]? = some action) :
    (TransitionIndex.ofList d.agent.transitions).lookup
      (.of action sync (coOccurring expansion i)) = d.suited sync expansion i := by
  rw [TransitionIndex.lookup_ofList, Description.suited]
  refine List.filter_congr fun t _ => ?_
  rw [decide_eq_decide]
  exact LocalTransition.key_eq_iff_suits hi

/-- A key does not depend on the order in which the other actions are given. -/
theorem TransitionKey.of_coOccurring (action sync : Text) (expansion : List Text) (i : Nat) :
    TransitionKey.of action sync (coOccurring expansion i) =
      .of action sync (expansion.eraseIdx i) :=
  TransitionKey.of_eq_of_iff.mpr ⟨rfl, rfl, Text.sort_perm _⟩

theorem getElem?_of_drop_eq_cons
    {i : Nat} {action : Text} {rest : List Text} (h : expansion.drop i = action :: rest) :
    expansion[i]? = some action ∧ expansion.drop (i + 1) = rest := by
  constructor
  · rw [← List.head?_drop, h, List.head?_cons]
  · rw [← List.tail_drop, h, List.tail_cons]

/-- Where every position from `i` on has a candidate, all of them are found. -/
theorem candidatesFrom_eq_ok
    {i : Nat} {rest : List Text} (hrest : expansion.drop i = rest)
    (hall : ∀ j, i ≤ j → j < i + rest.length → d.suited sync expansion j ≠ []) :
    candidatesFrom (.ofList d.agent.transitions) sync expansion i rest =
      .ok ((List.range' i rest.length).map (d.suited sync expansion)) := by
  induction rest generalizing i with
  | nil => rfl
  | cons action rest ih =>
      obtain ⟨hi, hdrop⟩ := getElem?_of_drop_eq_cons hrest
      have hhere : d.suited sync expansion i ≠ [] := hall i (Nat.le_refl i) (by simp)
      have htail := ih hdrop fun j hj hlt => hall j (by omega) (by simp at hlt ⊢; omega)
      simp only [candidatesFrom, lookup_eq_suited hi, htail]
      rw [List.length_cons, List.range'_succ, List.map_cons]
      rfl

/-- The first position from `i` on that has no candidate is reported. -/
theorem candidatesFrom_eq_error
    {i j : Nat} {action : Text} {rest : List Text} (hrest : expansion.drop i = rest)
    (hij : i ≤ j) (hj : expansion[j]? = some action) (hnone : d.suited sync expansion j = [])
    (hbefore : ∀ l, i ≤ l → l < j → d.suited sync expansion l ≠ []) :
    candidatesFrom (.ofList d.agent.transitions) sync expansion i rest =
      .error (.of action sync (expansion.eraseIdx j)) := by
  induction rest generalizing i with
  | nil =>
      have hlength : expansion.length ≤ i := List.drop_eq_nil_iff.mp hrest
      have hlt : j < expansion.length := (List.getElem?_eq_some_iff.mp hj).1
      omega
  | cons first rest ih =>
      obtain ⟨hi, hdrop⟩ := getElem?_of_drop_eq_cons hrest
      simp only [candidatesFrom, lookup_eq_suited hi]
      rcases Nat.eq_or_lt_of_le hij with rfl | hlt
      · rw [hi] at hj
        rw [hnone, Option.some.inj hj, TransitionKey.of_coOccurring]
      · have htail := ih hdrop hlt fun l hl hlj => hbefore l (by omega) hlj
        split
        next hempty => exact absurd hempty (hbefore i (Nat.le_refl i) hlt)
        next => rw [htail]; rfl

end Candidates

/-! ## Choices -/

/-- There are as many choices as the product of the numbers of candidates. -/
theorem length_choices {α : Type} (lists : List (List α)) :
    (choices lists).length = (lists.map List.length).prod := by
  induction lists with
  | nil => rfl
  | cons xs rest ih =>
      simp only [choices, List.length_flatMap, List.length_map, List.map_const',
        List.sum_replicate_nat, ih, List.map_cons, List.prod_cons]

/-- The global transition takes the step of the environment, and at each position
of the expansion the move of a local transition that suits it. -/
structure Synchronizes
    (d : Description) (et : EnvironmentTransition) (expansion : List Text)
    (g : GlobalTransition) : Prop where
  envBefore : g.envBefore = et.before
  sync : g.sync = et.sync
  envAfter : g.envAfter = et.after
  line : g.line = et.line
  multiset : g.multiset = expansion
  lengths : g.agentBefore.length = expansion.length ∧
    g.agentActions.length = expansion.length ∧ g.agentAfter.length = expansion.length
  moves : ∀ i < expansion.length, ∃ t ∈ d.agent.transitions, t.Suits et.sync expansion i ∧
    g.agentBefore[i]? = some t.before ∧ g.agentActions[i]? = some t.action ∧
    g.agentAfter[i]? = some t.after

section Contributions

variable {d : Description} {et : EnvironmentTransition} {expansion : List Text}

/-- A choice takes one candidate for each position. -/
theorem mem_choices_suited {choice : List LocalTransition} :
    choice ∈ choices ((List.range expansion.length).map (d.suited et.sync expansion)) ↔
      choice.length = expansion.length ∧
        ∀ i t, choice[i]? = some t →
          t ∈ d.agent.transitions ∧ t.Suits et.sync expansion i := by
  rw [mem_choices, List.forall₂_iff_get]
  simp only [List.length_map, List.length_range, List.get_eq_getElem, List.getElem_map,
    List.getElem_range, Description.suited, List.mem_filter, decide_eq_true_eq,
    List.getElem?_eq_some_iff]
  constructor
  · rintro ⟨hlength, hmem⟩
    refine ⟨hlength, ?_⟩
    rintro i t ⟨hi, rfl⟩
    exact hmem i hi (by omega)
  · rintro ⟨hlength, hmem⟩
    exact ⟨hlength, fun i hi _ => hmem i _ ⟨hi, rfl⟩⟩

theorem synchronizes_joinedBy
    {choice : List LocalTransition} (hlength : choice.length = expansion.length)
    (hmem : ∀ i t, choice[i]? = some t →
      t ∈ d.agent.transitions ∧ t.Suits et.sync expansion i) :
    Synchronizes d et expansion (et.joinedBy expansion choice) where
  envBefore := rfl
  sync := rfl
  envAfter := rfl
  line := rfl
  multiset := rfl
  lengths := by simp [EnvironmentTransition.joinedBy, hlength]
  moves i hi := by
    have hget : choice[i]? = some (choice.get ⟨i, by omega⟩) := List.getElem?_eq_getElem _
    obtain ⟨ht, hsuits⟩ := hmem i _ hget
    exact ⟨_, ht, hsuits, by simp [EnvironmentTransition.joinedBy, hget]⟩

/-- The moves of a consistent transition are those of a choice. -/
theorem Synchronizes.exists_choice {g : GlobalTransition} (h : Synchronizes d et expansion g) :
    ∃ choice, choice ∈ choices ((List.range expansion.length).map
      (d.suited et.sync expansion)) ∧ et.joinedBy expansion choice = g := by
  choose pick hpick using h.moves
  obtain ⟨hbefore, hactions, hafter⟩ := h.lengths
  have hget : ∀ i (hi : i < expansion.length),
      (List.ofFn fun j : Fin expansion.length => pick j j.2)[i]? = some (pick i hi) := by
    intro i hi
    simp [hi]
  -- Two lists of the length of the expansion agree when they do at its positions.
  have hext : ∀ {names : List Text} {f : LocalTransition → Text},
      names.length = expansion.length →
      (∀ i (hi : i < expansion.length), names[i]? = some (f (pick i hi))) →
      (List.ofFn fun j : Fin expansion.length => pick j j.2).map f = names := by
    intro names f hlength hnames
    apply List.ext_getElem?
    intro i
    by_cases hi : i < expansion.length
    · rw [List.getElem?_map, hget i hi, hnames i hi, Option.map_some]
    · rw [List.getElem?_eq_none (by simp; omega), List.getElem?_eq_none (by omega)]
  refine ⟨List.ofFn fun j : Fin expansion.length => pick j j.2, ?_, ?_⟩
  · rw [mem_choices_suited]
    refine ⟨List.length_ofFn, ?_⟩
    intro i t ht
    have hi : i < expansion.length := by
      have hlt := (List.getElem?_eq_some_iff.mp ht).1
      rwa [List.length_ofFn] at hlt
    rw [hget i hi] at ht
    obtain rfl := Option.some.inj ht
    exact ⟨(hpick i hi).1, (hpick i hi).2.1⟩
  · obtain ⟨agentBefore, agentActions, envBefore, sync, multiset, agentAfter, envAfter, line⟩ := g
    simp only [EnvironmentTransition.joinedBy, GlobalTransition.mk.injEq]
    exact ⟨hext hbefore fun i hi => (hpick i hi).2.2.1,
      hext hactions fun i hi => (hpick i hi).2.2.2.1, h.envBefore.symm, h.sync.symm,
      h.multiset.symm, hext hafter fun i hi => (hpick i hi).2.2.2.2, h.envAfter.symm, h.line.symm⟩

/-- With candidates for every position, all choices are joined. -/
theorem contributed_of_matched
    (hall : ∀ i < expansion.length, d.suited et.sync expansion i ≠ []) :
    d.contributed et expansion =
        (choices ((List.range expansion.length).map (d.suited et.sync expansion))).map
          (et.joinedBy expansion) ∧
      d.diagnose et expansion = none := by
  have hcandidates : candidates (.ofList d.agent.transitions) et.sync expansion =
      .ok ((List.range' 0 expansion.length).map (d.suited et.sync expansion)) :=
    candidatesFrom_eq_ok rfl fun j _ hj => hall j (by omega)
  rw [← List.range_eq_range'] at hcandidates
  simp only [Description.contributed, Description.diagnose, realize, hcandidates, realized,
    unrealized, and_self]

/-- A position without candidates leaves nothing but the diagnostic. -/
theorem contributed_of_unmatched
    {i : Nat} {action : Text} (hi : expansion[i]? = some action)
    (hnone : d.suited et.sync expansion i = [])
    (hbefore : ∀ j < i, d.suited et.sync expansion j ≠ []) :
    d.contributed et expansion = [] ∧
      d.diagnose et expansion =
        some ⟨et, expansion, .of action et.sync (expansion.eraseIdx i)⟩ := by
  have hcandidates : candidates (.ofList d.agent.transitions) et.sync expansion =
      .error (.of action et.sync (expansion.eraseIdx i)) :=
    candidatesFrom_eq_error rfl (Nat.zero_le i) hi hnone fun j _ hj => hbefore j hj
  simp only [Description.contributed, Description.diagnose, realize, hcandidates, realized,
    unrealized, and_self]

/-- Every position has a candidate, or there is a first one that has none. -/
theorem matched_or_first_gap (d : Description) (et : EnvironmentTransition)
    (expansion : List Text) :
    (∀ i < expansion.length, d.suited et.sync expansion i ≠ []) ∨
      ∃ i action, expansion[i]? = some action ∧ d.suited et.sync expansion i = [] ∧
        ∀ j < i, d.suited et.sync expansion j ≠ [] := by
  by_cases hgap : ∃ i, i < expansion.length ∧ d.suited et.sync expansion i = []
  · right
    obtain ⟨hlt, hnone⟩ := Nat.find_spec hgap
    refine ⟨Nat.find hgap, _, List.getElem?_eq_getElem hlt, hnone, ?_⟩
    intro j hj hempty
    exact Nat.find_min hgap hj ⟨by omega, hempty⟩
  · left
    intro i hi hempty
    exact hgap ⟨i, hi, hempty⟩

theorem mem_contributed_iff {g : GlobalTransition} :
    g ∈ d.contributed et expansion ↔ Synchronizes d et expansion g := by
  rcases matched_or_first_gap d et expansion with hall | ⟨i, action, hi, hnone, hbefore⟩
  · rw [(contributed_of_matched hall).1, List.mem_map]
    constructor
    · rintro ⟨choice, hchoice, rfl⟩
      obtain ⟨hlength, hmem⟩ := mem_choices_suited.mp hchoice
      exact synchronizes_joinedBy hlength hmem
    · exact Synchronizes.exists_choice
  · rw [(contributed_of_unmatched hi hnone hbefore).1]
    simp only [List.not_mem_nil, false_iff]
    intro h
    obtain ⟨t, ht, hsuits, -⟩ := h.moves i (List.getElem?_eq_some_iff.mp hi).1
    have hmem : t ∈ d.suited et.sync expansion i :=
      List.mem_filter.mpr ⟨ht, decide_eq_true hsuits⟩
    rw [hnone] at hmem
    cases hmem

theorem length_contributed (d : Description) (et : EnvironmentTransition)
    (expansion : List Text) :
    (d.contributed et expansion).length =
      ((List.range expansion.length).map fun i => (d.suited et.sync expansion i).length).prod := by
  rcases matched_or_first_gap d et expansion with hall | ⟨i, action, hi, hnone, hbefore⟩
  · rw [(contributed_of_matched hall).1, List.length_map, length_choices, List.map_map]
    rfl
  · have hzero : 0 ∈ (List.range expansion.length).map fun i =>
        (d.suited et.sync expansion i).length :=
      List.mem_map.mpr ⟨i, List.mem_range.mpr (List.getElem?_eq_some_iff.mp hi).1, by simp [hnone]⟩
    rw [(contributed_of_unmatched hi hnone hbefore).1, List.prod_eq_zero hzero, List.length_nil]

end Contributions

/-! ## Expansions -/

section Expansions

variable {slots expansion : List Text}

theorem slotLimit_natCast {k : Nat} (hk : 1 ≤ k) : slotLimit k = k := by
  unfold slotLimit
  omega

/-- The expansions are the sorted lists that take each slot at least once and at
most `k` times. -/
theorem mem_expand_iff {k : Nat} (hk : 1 ≤ k) :
    expansion ∈ expand slots k ↔ Text.Ascending expansion ∧ Expands k slots expansion := by
  constructor
  · intro h
    have hexpands := expands_of_mem_expand h
    rw [slotLimit_natCast hk] at hexpands
    exact ⟨ascending_of_mem_expand h, hexpands⟩
  · rintro ⟨hascending, hexpands⟩
    rw [← slotLimit_natCast hk] at hexpands
    obtain ⟨listed, hlisted, hperm⟩ := exists_mem_expand_of_expands hexpands
    rwa [← Text.eq_of_perm_of_ascending (ascending_of_mem_expand hlisted) hascending hperm]

theorem length_expand {k : Nat} (hk : 1 ≤ k) (slots : List Text) :
    (expand slots k).length = k ^ slots.length := by
  rw [length_expand_slotLimit, slotLimit_natCast hk]

end Expansions

/-! ## Composition -/

/-- The composition lists exactly the consistent synchronizations: what each
occurrence of each expansion contributes, one after the other. -/
structure EnumeratedExactly (d : Description) (k : Nat) (c : Composition) : Prop where
  transitions_eq : c.transitions = d.environment.transitions.flatMap fun et =>
    (expand et.agents k).flatMap (d.contributed et)
  unmatched_eq : c.unmatched = d.environment.transitions.flatMap fun et =>
    (expand et.agents k).filterMap (d.diagnose et)
  expansions_eq : c.expansions =
    (d.environment.transitions.map fun et => k ^ et.agents.length).sum
  expansion_iff : ∀ et ∈ d.environment.transitions, ∀ expansion,
    expansion ∈ expand et.agents k ↔
      Text.Ascending expansion ∧ Expands k et.agents expansion
  contributed_iff : ∀ et expansion g,
    g ∈ d.contributed et expansion ↔ Synchronizes d et expansion g
  number : ∀ et expansion, (d.contributed et expansion).length =
    ((List.range expansion.length).map fun i => (d.suited et.sync expansion i).length).prod
  matched : ∀ et expansion,
    (∀ i < expansion.length, d.suited et.sync expansion i ≠ []) → d.diagnose et expansion = none
  unmatched : ∀ et expansion i action, expansion[i]? = some action →
    d.suited et.sync expansion i = [] → (∀ j < i, d.suited et.sync expansion j ≠ []) →
    d.contributed et expansion = [] ∧ d.diagnose et expansion =
      some ⟨et, expansion, .of action et.sync (expansion.eraseIdx i)⟩
  mem_iff : ∀ g, g ∈ c.transitions ↔ ∃ et ∈ d.environment.transitions, ∃ expansion,
    Text.Ascending expansion ∧ Expands k et.agents expansion ∧ Synchronizes d et expansion g
  aligned : ∀ g ∈ c.transitions, g.agentActions = g.multiset ∧
    g.agentBefore.length = g.multiset.length ∧ g.agentAfter.length = g.multiset.length

theorem Synchronizes.agentActions_eq
    {d : Description} {et : EnvironmentTransition} {expansion : List Text} {g : GlobalTransition}
    (h : Synchronizes d et expansion g) : g.agentActions = expansion := by
  apply List.ext_getElem?
  intro i
  by_cases hi : i < expansion.length
  · obtain ⟨t, -, hsuits, -, haction, -⟩ := h.moves i hi
    rw [haction, hsuits.action]
  · rw [List.getElem?_eq_none (by have := h.lengths.2.1; omega),
      List.getElem?_eq_none (by omega)]

theorem transitions_eq_contributed (d : Description) (limit : Int) :
    (compose d ⟨limit, false⟩).transitions = d.environment.transitions.flatMap fun et =>
      (expand et.agents limit).flatMap (d.contributed et) := by
  simp only [compose, outcomes, List.flatMap_assoc, List.flatMap_map]
  rfl

/-- Without deduplication, and with at most `k` agents in a slot, composition
lists every consistent synchronization as often as there are choices for it. -/
theorem compose_enumerates (d : Description) {k : Nat} (hk : 1 ≤ k) :
    EnumeratedExactly d k (compose d ⟨k, false⟩) where
  transitions_eq := transitions_eq_contributed d k
  unmatched_eq := unmatched_eq d ⟨k, false⟩
  expansions_eq := by
    simp only [compose, outcomes, List.length_flatMap, List.length_map, expansionsOf]
    simp [length_expand hk]
  expansion_iff _ _ _ := mem_expand_iff hk
  contributed_iff _ _ _ := mem_contributed_iff
  number := length_contributed d
  matched _ _ hall := (contributed_of_matched hall).2
  unmatched _ _ _ _ hi hnone hbefore := contributed_of_unmatched hi hnone hbefore
  mem_iff g := by
    simp only [transitions_eq_contributed, List.mem_flatMap, mem_expand_iff hk,
      mem_contributed_iff, and_assoc]
  aligned g hg := by
    simp only [transitions_eq_contributed, List.mem_flatMap, mem_contributed_iff] at hg
    obtain ⟨et, -, expansion, -, hsync⟩ := hg
    obtain ⟨hbefore, -, hafter⟩ := hsync.lengths
    rw [hsync.multiset]
    exact ⟨hsync.agentActions_eq, hbefore, hafter⟩

/-- An agent climbs one floor when exactly one other climbs with it. -/
def twoFloors : Description where
  agent :=
    { states := [⟨"low", 1⟩, ⟨"mid", 1⟩, ⟨"top", 0⟩]
      actions := ["up"]
      protocol := []
      transitions :=
        [⟨"low", "up", "tick", ["up"], "mid", 3⟩, ⟨"mid", "up", "tick", ["up"], "top", 4⟩]
      initial := "low"
      leave := "top" }
  environment :=
    { states := ["s0"]
      actions := ["tick"]
      protocol := []
      initial := "s0"
      transitions := [⟨"s0", "tick", ["up"], "s0", 10⟩] }

/-- One climber alone matches nothing; two of them have four choices. -/
theorem compose_enumerates_twoFloors :
    1 ≤ 2 ∧ EnumeratedExactly twoFloors 2 (compose twoFloors ⟨2, false⟩) ∧
      (compose twoFloors ⟨2, false⟩).transitions.length = 4 ∧
      (compose twoFloors ⟨2, false⟩).unmatched =
        [⟨⟨"s0", "tick", ["up"], "s0", 10⟩, ["up"], .of "up" "tick" []⟩] ∧
      (compose twoFloors ⟨2, false⟩).expansions = 2 :=
  ⟨by decide, compose_enumerates twoFloors (by decide : 1 ≤ 2), by decide +kernel,
    by decide +kernel, by decide +kernel⟩

end Population
