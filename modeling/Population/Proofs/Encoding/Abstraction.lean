import Population.Proofs.Encoding.Simulation
import Mathlib.Algebra.BigOperators.Group.List.Basic

/-!
# Counter systems abstract populations exactly

The reachable markings of an encoding are the tallies of the reachable
populations, no more and no less, whatever the concurrency limit and with or
without deduplication.  What holds of every population therefore holds of every
marking: environment counters sum to one, agent counters sum to the number of
active agents, and that number respects the bound.
-/

namespace Population

open Encoding

variable {d : Description} {opts : CompositionOptions} {bound : Int64} {enc : Encoding}

/-- The encoding belongs to a well-formed description, composed under the
options and bounded by a number that is not negative. -/
structure Encoding.Abstracts
    (enc : Encoding) (d : Description) (opts : CompositionOptions) (bound : Int64) :
    Prop where
  wellFormed : d.WellFormed
  bound_nonneg : 0 ≤ bound.toInt
  encodes : enc.Encodes d (compose d opts).transitions bound

/-- Every accepted description has an encoding. -/
theorem exists_abstracts
    {text : Text} (hread : Description.read text = .ok d) (opts : CompositionOptions)
    (hbound : 0 ≤ bound) (name : Text) :
    ∃ enc, encode d (compose d opts).transitions ⟨bound, name⟩ = .ok enc ∧
      enc.Abstracts d opts bound := by
  have hd := Description.read_wellFormed hread
  obtain ⟨enc, hencode, henc, -⟩ := exists_encode hd (compose d opts).transitions hbound name
  exact ⟨enc, hencode, hd, Int64.le_iff_toInt_le.mp hbound, henc⟩

namespace Encoding.Abstracts

theorem arises
    (h : enc.Abstracts d opts bound) {e : Text × GlobalTransition} (he : e ∈ enc.globals) :
    Arises d opts.maxConcurrency e.2 := by
  rw [h.encodes.globals_eq] at he
  exact arises_of_mem_compose (mem_of_mem_nameGlobals he)

theorem mem_transitions_iff (h : enc.Abstracts d opts bound) {t : Transition} :
    t ∈ enc.system.transitions ↔ t = spawn d bound ∨ t = leave d ∨
      ∃ name g, (name, g) ∈ enc.globals ∧ t = guarded name g := by
  rw [h.encodes.transitions_eq, h.encodes.globals_eq]
  exact Encoding.mem_transitions_iff

end Encoding.Abstracts

/-! ## The start -/

theorem initial_eq_of_mem_counters (hd : d.WellFormed) :
    ∀ v ∈ counters d, v.initial = if v.name = d.environment.initial then 1 else 0 := by
  intro v hv
  have hstart := hd.environmentInitial_mem
  simp only [counters, List.mem_append, List.mem_map, List.mem_singleton] at hv
  rcases hv with (⟨s, hs, rfl⟩ | ⟨s, hs, rfl⟩) | rfl
  · have hne : s.name ≠ d.environment.initial := by
      intro heq
      exact hd.disjoint _ hstart (heq ▸ List.mem_map.mpr ⟨s, hs, rfl⟩)
    rw [if_neg hne]
  · rfl
  · have hne : reservedName ≠ d.environment.initial := by
      intro heq
      exact hd.reserved_not_environment (heq ▸ hstart)
    rw [if_neg hne]

theorem mem_domain_initial (h : enc.Abstracts d opts bound) {n : Text} :
    n ∈ enc.system.initial.domain ↔ n ∈ (counters d).map (·.name) := by
  rw [CounterSystem.initial, Marking.mem_domain_ofList, List.map_map, h.encodes.counters_eq]
  rfl

/-- At the start only the environment's counter is not zero. -/
theorem value_initial (h : enc.Abstracts d opts bound) (n : Text) :
    enc.system.initial.value n = if n = d.environment.initial then 1 else 0 := by
  have hd := h.wellFormed
  have hnodup : ((enc.system.counters.map fun v => (v.name, v.initial)).map (·.1)).Nodup := by
    rw [List.map_map, h.encodes.counters_eq]
    exact counterNames_nodup hd
  by_cases hn : n ∈ (counters d).map (·.name)
  · obtain ⟨v, hv, rfl⟩ := List.mem_map.mp hn
    have hentry : (v.name, v.initial) ∈
        enc.system.counters.map fun v => (v.name, v.initial) := by
      rw [h.encodes.counters_eq]
      exact List.mem_map.mpr ⟨v, hv, rfl⟩
    rw [Marking.value, CounterSystem.initial, Marking.get_ofList hnodup,
      Marking.lookup_of_mem hnodup hentry, Option.getD_some,
      initial_eq_of_mem_counters hd v hv]
    split <;> rfl
  · have hne : n ≠ d.environment.initial := by
      rintro rfl
      apply hn
      rw [map_name_counters]
      simp [hd.environmentInitial_mem]
    rw [Marking.value_of_not_mem_domain fun hmem => hn ((mem_domain_initial h).mp hmem),
      if_neg hne]

/-- The initial marking tallies the population without agents. -/
theorem tallies_initial (h : enc.Abstracts d opts bound) :
    Tallies d enc.system.initial (Configuration.start d) := by
  refine ⟨?_, ?_, fun n => mem_domain_initial h⟩
  · intro s hs
    rw [value_initial h, Configuration.tokens, Configuration.start, List.count_singleton]
    by_cases heq : s = d.environment.initial
    · simp [heq]
    · simp [heq, Ne.symm heq]
  · have hne : reservedName ≠ d.environment.initial := by
      intro heq
      exact h.wellFormed.reserved_not_environment
        (heq ▸ h.wellFormed.environmentInitial_mem)
    rw [value_initial h, if_neg hne]
    rfl

/-! ## Reachable markings and reachable populations -/

/-- Every reachable marking tallies a reachable population. -/
theorem exists_population
    (h : enc.Abstracts d opts bound) {m : Marking} (hm : enc.system.Reachable m) :
    ∃ c, Configuration.Reachable d (slotLimit opts.maxConcurrency) bound c ∧
      c.Lawful d bound ∧ Tallies d m c := by
  have hd := h.wellFormed
  induction hm with
  | initial =>
      exact ⟨_, .refl, Configuration.lawful_start hd h.bound_nonneg, tallies_initial h⟩
  | fire _ ht hfire ih =>
      obtain ⟨c, hc, hlawful, htally⟩ := ih
      obtain ⟨hguard, rfl, -⟩ := Transition.fire?_eq_some_iff.mp hfire
      rw [h.encodes.transitions_eq] at ht
      obtain ⟨-, c', hstep, htally'⟩ := htally.exists_step hd hlawful ht hguard
      exact ⟨c', hc.tail hstep, hlawful.step hd hstep, htally'⟩

/-- Every reachable population is tallied by a reachable marking. -/
theorem exists_marking
    (h : enc.Abstracts d opts bound) {c : Configuration}
    (hc : Configuration.Reachable d (slotLimit opts.maxConcurrency) bound c) :
    c.Lawful d bound ∧ ∃ m, enc.system.Reachable m ∧ Tallies d m c := by
  have hd := h.wellFormed
  induction hc with
  | refl =>
      exact ⟨Configuration.lawful_start hd h.bound_nonneg, _, .initial, tallies_initial h⟩
  | tail _ hstep ih =>
      obtain ⟨hlawful, m, hm, htally⟩ := ih
      obtain ⟨t, ht, hguard, htally'⟩ := htally.exists_firing hd hlawful hstep
      rw [← h.encodes.transitions_eq] at ht
      exact ⟨hlawful.step hd hstep, _, hm.fire ht (htally'.fire? hguard), htally'⟩

/-! ## Exactness -/

/-- The marking counts the agents in each agent state, says where the
environment is and how many agents there are, and mentions nothing else. -/
structure Represents (d : Description) (m : Marking) (c : Configuration) : Prop where
  agent : ∀ s ∈ d.agent.stateNames, m.value s = c.agents.count s
  environment : ∀ s ∈ d.environment.states,
    m.value s = if s = c.environment then 1 else 0
  active : m.value reservedName = c.agents.length
  names_perm : m.names.Perm (d.agent.stateNames ++ d.environment.states ++ [reservedName])

theorem Tallies.represents
    {m : Marking} {c : Configuration} (hd : d.WellFormed) (hc : c.Lawful d bound)
    (h : Tallies d m c) : Represents d m c where
  agent s hs := by
    rw [h.state s (fun heq => hd.reserved_not_agent (heq ▸ hs)), hc.count_agent hd hs]
  environment s hs := by
    rw [h.state s (fun heq => hd.reserved_not_environment (heq ▸ hs)),
      hc.count_environment hd hs]
    split <;> rfl
  active := h.active
  names_perm := by
    rw [← map_name_counters]
    refine (Marking.names_perm_domain m).trans ?_
    rw [List.perm_ext_iff_of_nodup m.domain_nodup (counterNames_nodup hd)]
    exact h.mem_domain

theorem Represents.tallies
    {m : Marking} {c : Configuration} (hd : d.WellFormed) (hc : c.Lawful d bound)
    (h : Represents d m c) : Tallies d m c := by
  have hmem_domain : ∀ n, n ∈ m.domain ↔ n ∈ (counters d).map (·.name) := by
    intro n
    rw [map_name_counters, ← (Marking.names_perm_domain m).mem_iff, h.names_perm.mem_iff]
  refine ⟨?_, h.active, hmem_domain⟩
  intro s hs
  by_cases hagent : s ∈ d.agent.stateNames
  · rw [h.agent s hagent, hc.count_agent hd hagent]
  by_cases henvironment : s ∈ d.environment.states
  · rw [h.environment s henvironment, hc.count_environment hd henvironment]
    split <;> rfl
  have hundeclared : s ∉ (counters d).map (·.name) := by
    rw [map_name_counters]
    simp [hagent, henvironment, hs]
  have habsent : s ∉ c.tokens := fun hmem => hundeclared (hc.mem_counters hmem)
  rw [Marking.value_of_not_mem_domain (fun hmem => hundeclared ((hmem_domain s).mp hmem)),
    List.count_eq_zero.mpr habsent]
  rfl

/-- The encoding reaches exactly the markings of reachable populations. -/
theorem reachable_iff_exists_population
    {text : Text} (hread : Description.read text = .ok d) (opts : CompositionOptions)
    (hbound : 0 ≤ bound) (name : Text) :
    ∃ enc, encode d (compose d opts).transitions ⟨bound, name⟩ = .ok enc ∧
      ∀ m, enc.system.Reachable m ↔
        ∃ c, Configuration.Reachable d (slotLimit opts.maxConcurrency) bound c ∧
          Represents d m c := by
  obtain ⟨enc, hencode, h⟩ := exists_abstracts hread opts hbound name
  have hd := h.wellFormed
  refine ⟨enc, hencode, ?_⟩
  intro m
  constructor
  · intro hm
    obtain ⟨c, hc, hlawful, htally⟩ := exists_population h hm
    exact ⟨c, hc, htally.represents hd hlawful⟩
  · rintro ⟨c, hc, hrepresents⟩
    obtain ⟨hlawful, m', hm', htally⟩ := exists_marking h hc
    rw [(hrepresents.tallies hd hlawful).unique htally]
    exact hm'

/-- Idle agents are served alone or two at a time; once one has been served a
hit is possible, which no idle agent must meet. -/
def relayText (leave : Text) : Text :=
  Text.cat
    ["idle: 1, done: 1, bad: 0\n",
      "go, hit\n",
      "idle,sync,go,go,done\n",
      "idle,sync,go go,go,done\n",
      "idle,boom,hit,hit,bad\n",
      "idle\n",
      leave, "\n",
      "s0, s1\n",
      "sync, boom\n",
      "s0\n",
      "s0,sync,go,s1\n",
      "s1,boom,hit,s1\n"]

theorem reachable_iff_exists_population_relay :
    ∃ d, Description.read (relayText "done") = .ok d ∧ (0 : Int64) ≤ 2 ∧
      ∃ enc, encode d (compose d ⟨2, true⟩).transitions ⟨2, []⟩ = .ok enc ∧
        ∀ m, enc.system.Reachable m ↔
          ∃ c, Configuration.Reachable d (slotLimit 2) 2 c ∧ Represents d m c := by
  obtain ⟨d, hread, -⟩ := Description.exists_eq_ok_of_any
    (x := Description.read (relayText "done")) (p := fun _ => true) (by decide +kernel)
  exact ⟨d, hread, by decide,
    reachable_iff_exists_population hread ⟨2, true⟩ (by decide) []⟩

/-! ## Invariants -/

/-- The counters are those of a population with at most `bound` agents. -/
structure Balanced (d : Description) (bound : Int64) (m : Marking) : Prop where
  nonneg : ∀ n, 0 ≤ m.value n
  environment_sum : (d.environment.states.map m.value).sum = 1
  agent_sum : (d.agent.stateNames.map m.value).sum = m.value reservedName
  active_le : m.value reservedName ≤ bound.toInt

/-- Distinct states hold all members of a population of theirs. -/
theorem sum_count_eq_length
    {states members : List Text} (hnodup : states.Nodup) (hsubset : members ⊆ states) :
    (states.map fun s => (members.count s : Int)).sum = members.length := by
  induction states generalizing members with
  | nil => simp [List.subset_nil.mp hsubset]
  | cons s rest ih =>
      obtain ⟨hfresh, hrest⟩ := List.nodup_cons.mp hnodup
      have hothers : members.filter (fun x => x ≠ s) ⊆ rest := by
        intro x hx
        obtain ⟨hmem, hne⟩ := List.mem_filter.mp hx
        exact (List.mem_cons.mp (hsubset hmem)).resolve_left (by simpa using hne)
      have hcount : ∀ x ∈ rest,
          ((members.filter fun x => x ≠ s).count x : Int) = members.count x := by
        intro x hx
        have hne : x ≠ s := fun heq => hfresh (heq ▸ hx)
        rw [List.count_filter (by simpa using hne)]
      have hlength : members.length =
          members.count s + (members.filter fun x => x ≠ s).length := by
        rw [List.length_eq_countP_add_countP (· == s), ← List.countP_eq_length_filter]
        simp [List.count]
      have hsum := ih hrest hothers
      rw [List.map_congr_left hcount] at hsum
      rw [List.map_cons, List.sum_cons, hsum, hlength, Int.natCast_add]

theorem Tallies.balanced
    {m : Marking} {c : Configuration} (hd : d.WellFormed) (hc : c.Lawful d bound)
    (h : Tallies d m c) : Balanced d bound m where
  nonneg := h.nonneg
  environment_sum := by
    have hvalue : ∀ s ∈ d.environment.states,
        m.value s = (([c.environment].count s : Nat) : Int) := by
      intro s hs
      rw [(h.represents hd hc).environment s hs, List.count_singleton]
      by_cases heq : s = c.environment
      · simp [heq]
      · simp [heq, Ne.symm heq]
    rw [List.map_congr_left hvalue]
    exact sum_count_eq_length hd.environmentStates_nodup (by simpa using hc.environment_mem)
  agent_sum := by
    rw [List.map_congr_left (h.represents hd hc).agent, h.active]
    exact sum_count_eq_length hd.agentStates_nodup hc.agents_subset
  active_le := by
    rw [h.active]
    exact hc.length_le

/-- Reachable markings are those of a population, and no firing that a guard
permits overflows. -/
theorem reachable_balanced
    {text : Text} (hread : Description.read text = .ok d) (opts : CompositionOptions)
    (hbound : 0 ≤ bound) (name : Text) :
    ∃ enc, encode d (compose d opts).transitions ⟨bound, name⟩ = .ok enc ∧
      ∀ m, enc.system.Reachable m →
        Balanced d bound m ∧ m.names.Perm enc.system.counterNames ∧
          ∀ t ∈ enc.system.transitions, t.guard.holds m = true → t.updates.Exact m := by
  obtain ⟨enc, hencode, h⟩ := exists_abstracts hread opts hbound name
  have hd := h.wellFormed
  refine ⟨enc, hencode, ?_⟩
  intro m hm
  obtain ⟨c, -, hlawful, htally⟩ := exists_population h hm
  refine ⟨htally.balanced hd hlawful, ?_, ?_⟩
  · rw [CounterSystem.counterNames, h.encodes.counters_eq, map_name_counters]
    exact (htally.represents hd hlawful).names_perm
  · intro t ht hguard
    rw [h.encodes.transitions_eq] at ht
    exact (htally.exists_step hd hlawful ht hguard).1

theorem reachable_balanced_relay :
    ∃ d, Description.read (relayText "done") = .ok d ∧
      (0 : Int64) ≤ 9223372036854775807 ∧
      ∃ enc, encode d (compose d ⟨2, false⟩).transitions ⟨9223372036854775807, []⟩ = .ok enc ∧
        ∀ m, enc.system.Reachable m →
          Balanced d 9223372036854775807 m ∧ m.names.Perm enc.system.counterNames ∧
            ∀ t ∈ enc.system.transitions, t.guard.holds m = true → t.updates.Exact m := by
  obtain ⟨d, hread, -⟩ := Description.exists_eq_ok_of_any
    (x := Description.read (relayText "done")) (p := fun _ => true) (by decide +kernel)
  exact ⟨d, hread, by decide, reachable_balanced hread ⟨2, false⟩ (by decide) []⟩

end Population
