import Population.Proofs.Configuration.Exchange
import Population.Proofs.Encoding.Construction
import Population.Proofs.Encoding.Firing

/-!
# Markings and populations simulate each other

A marking tallies a population when every counter holds the number of tokens of
its state.  From there on, each firing of the encoding is matched by a step of
the population and each step by a firing, and the tally is kept.  No addition
overflows on the way, because the number of agents is bounded.
-/

namespace Population

open Encoding

/-- Every counter of the marking holds the number of tokens of its state. -/
structure Tallies (d : Description) (m : Marking) (c : Configuration) : Prop where
  state : ∀ s, s ≠ reservedName → m.value s = c.tokens.count s
  active : m.value reservedName = c.agents.length
  mem_domain : ∀ n, n ∈ m.domain ↔ n ∈ (counters d).map (·.name)

namespace Configuration.Lawful

variable {d : Description} {bound : Int64} {c : Configuration}

theorem mem_counters (h : c.Lawful d bound) {s : Text} (hs : s ∈ c.tokens) :
    s ∈ (counters d).map (·.name) := by
  rw [map_name_counters]
  rcases List.mem_cons.mp hs with rfl | hagent
  · simp [h.environment_mem]
  · simp [h.agents_subset hagent]

theorem ne_reserved (hd : d.WellFormed) (h : c.Lawful d bound) {s : Text}
    (hs : s ∈ c.tokens) : s ≠ reservedName := by
  rintro rfl
  rcases List.mem_cons.mp hs with heq | hagent
  · exact hd.reserved_not_environment (heq ▸ h.environment_mem)
  · exact hd.reserved_not_agent (h.agents_subset hagent)

theorem count_environment (hd : d.WellFormed) (h : c.Lawful d bound) {s : Text}
    (hs : s ∈ d.environment.states) :
    c.tokens.count s = if s = c.environment then 1 else 0 := by
  have hnone : c.agents.count s = 0 :=
    List.count_eq_zero.mpr fun hmem => hd.disjoint s hs (h.agents_subset hmem)
  rw [tokens, List.count_cons, hnone, Nat.zero_add]
  by_cases heq : s = c.environment
  · simp [heq]
  · simp [heq, Ne.symm heq]

theorem count_agent (hd : d.WellFormed) (h : c.Lawful d bound) {s : Text}
    (hs : s ∈ d.agent.stateNames) : c.tokens.count s = c.agents.count s := by
  have hne : c.environment ≠ s := by
    rintro rfl
    exact hd.disjoint _ h.environment_mem hs
  rw [tokens, List.count_cons_of_ne hne]

/-- A counter has room for all agents of a state. -/
theorem count_tokens_lt (hd : d.WellFormed) (h : c.Lawful d bound) (s : Text) :
    (c.tokens.count s : Int) < 2 ^ 63 := by
  by_cases hs : s ∈ d.environment.states
  · rw [h.count_environment hd hs]
    split <;> decide
  · have hne : c.environment ≠ s := by
      rintro rfl
      exact hs h.environment_mem
    have hle : c.agents.count s ≤ c.agents.length := List.count_le_length
    have hlength := h.length_le
    have hbound := bound.toInt_lt
    rw [tokens, List.count_cons_of_ne hne]
    omega

end Configuration.Lawful

namespace Tallies

variable {d : Description} {bound : Int64} {m : Marking} {c c' : Configuration}
  {g : GlobalTransition}

theorem nonneg (h : Tallies d m c) (n : Text) : 0 ≤ m.value n := by
  by_cases hn : n = reservedName
  · rw [hn, h.active]
    omega
  · rw [h.state n hn]
    omega

/-- A population is tallied by one marking only. -/
theorem unique {a b : Marking} (ha : Tallies d a c) (hb : Tallies d b c) : a = b := by
  apply Marking.ext_of_domain
  · intro n
    rw [ha.mem_domain, hb.mem_domain]
  · intro n
    rw [Marking.get_eq_iff_value_eq]
    by_cases hn : n = reservedName
    · rw [hn, ha.active, hb.active]
    · rw [ha.state n hn, hb.state n hn]

theorem fire? {t : Transition} (hguard : t.guard.holds m = true)
    (h : Tallies d (t.updates.apply m) c) : t.fire? m = some (t.updates.apply m) :=
  Transition.fire?_eq_some_iff.mpr ⟨hguard, rfl, Marking.nonNegative_iff.mpr h.nonneg⟩

/-! ## Agents that join and depart -/

/-- What changes with the number of agents in a state. -/
theorem headcount
    {s : Text} {delta : Int64} {agents : List Text} (h : Tallies d m c)
    (hs : s ∈ d.agent.stateNames) (hne : s ≠ reservedName)
    (hexact : (Encoding.headcount s delta).Exact m)
    (hcount : ∀ x, (agents.count x : Int) =
      c.agents.count x + if s = x then delta.toInt else 0)
    (hlength : (agents.length : Int) = c.agents.length + delta.toInt) :
    Tallies d ((Encoding.headcount s delta).apply m) ⟨c.environment, agents⟩ where
  state x hx := by
    rw [value_apply_headcount hexact, h.state x hx, if_neg (Ne.symm hx)]
    simp only [Configuration.tokens, List.count_cons]
    have hagents := hcount x
    omega
  active := by
    rw [value_apply_headcount hexact, h.active, if_neg hne, if_pos rfl, Int.zero_add]
    exact hlength.symm
  mem_domain n := by
    rw [mem_domain_apply_headcount, h.mem_domain, map_name_counters]
    constructor
    · rintro (hmem | rfl | rfl)
      · exact hmem
      · simp [hs]
      · simp
    · exact .inl

theorem count_le_active
    (hd : d.WellFormed) (h : Tallies d m c) (hc : c.Lawful d bound) {s : Text}
    (hs : s ∈ d.agent.stateNames) (hne : s ≠ reservedName) :
    m.value s ≤ m.value reservedName := by
  have hle : c.agents.count s ≤ c.agents.length := List.count_le_length
  rw [h.state s hne, h.active, hc.count_agent hd hs]
  omega

/-- An agent joins. -/
theorem spawn
    (hd : d.WellFormed) (h : Tallies d m c) (hc : c.Lawful d bound)
    (hroom : (c.agents.length : Int) < bound.toInt) :
    (Encoding.spawn d bound).guard.holds m = true ∧
      (Encoding.spawn d bound).updates.Exact m ∧
      Tallies d ((Encoding.spawn d bound).updates.apply m)
        ⟨c.environment, c.agents ++ [d.agent.initial]⟩ := by
  have hne : d.agent.initial ≠ reservedName := fun heq =>
    hd.reserved_not_agent (heq ▸ hd.initial_mem)
  have hle := h.count_le_active hd hc hd.initial_mem hne
  have hstate := h.nonneg d.agent.initial
  have hbound := bound.toInt_lt
  have hone : (1 : Int64).toInt = 1 := rfl
  have hexact : (Encoding.headcount d.agent.initial 1).Exact m := by
    rw [h.active] at hle
    apply headcount_exact hne
    · exact ⟨by omega, by omega⟩
    · rw [h.active]
      exact ⟨by omega, by omega⟩
  refine ⟨spawn_holds_iff.mpr (by rwa [h.active]), hexact, ?_⟩
  apply h.headcount hd.initial_mem hne hexact
  · intro x
    rw [List.count_append, List.count_singleton, hone]
    by_cases hx : d.agent.initial = x <;> simp [hx]
  · rw [List.length_append, List.length_singleton, hone]
    omega

/-- An agent departs. -/
theorem leave
    (hd : d.WellFormed) (h : Tallies d m c) (hc : c.Lawful d bound) {i : Nat}
    (hleave : c.agents[i]? = some d.agent.leave) :
    (Encoding.leave d).guard.holds m = true ∧
      (Encoding.leave d).updates.Exact m ∧
      Tallies d ((Encoding.leave d).updates.apply m)
        ⟨c.environment, c.agents.eraseIdx i⟩ := by
  have hne : d.agent.leave ≠ reservedName := fun heq =>
    hd.reserved_not_agent (heq ▸ hd.leave_mem)
  obtain ⟨hi, hget⟩ := List.getElem?_eq_some_iff.mp hleave
  have hperm : (d.agent.leave :: c.agents.eraseIdx i).Perm c.agents := by
    rw [← hget]
    exact List.getElem_cons_eraseIdx_perm hi
  have hpositive : 0 < m.value d.agent.leave := by
    have hcount := List.count_pos_iff.mpr (List.mem_of_getElem? hleave)
    rw [h.state _ hne, hc.count_agent hd hd.leave_mem]
    omega
  have hle := h.count_le_active hd hc hd.leave_mem hne
  have hminus : (-1 : Int64).toInt = -1 := rfl
  have hexact : (Encoding.headcount d.agent.leave (-1)).Exact m := by
    have hstate := m.value_lt d.agent.leave
    have hactive := m.value_lt reservedName
    apply headcount_exact hne
    · exact ⟨by omega, by omega⟩
    · exact ⟨by omega, by omega⟩
  refine ⟨leave_holds_iff.mpr hpositive, hexact, ?_⟩
  apply h.headcount hd.leave_mem hne hexact
  · intro x
    have hcount := hperm.count_eq x
    rw [List.count_cons] at hcount
    by_cases hx : d.agent.leave = x
    · simp only [hx, beq_self_eq_true, if_true] at hcount ⊢
      omega
    · simp only [hx, beq_iff_eq, if_false] at hcount ⊢
      omega
  · have hlength := hperm.length_eq
    rw [List.length_cons] at hlength
    simp only [hminus]
    omega

/-! ## Synchronizations -/

theorem covers
    (hd : d.WellFormed) (h : Tallies d m c) (hc : c.Lawful d bound)
    (htakes : List.Subperm g.before c.tokens) : Covers m g := by
  intro s
  by_cases hs : s ∈ g.before
  · rw [h.state s (hc.ne_reserved hd (htakes.subset hs))]
    exact Int.ofNat_le.mpr (htakes.count_le s)
  · rw [List.count_eq_zero.mpr hs]
    exact h.nonneg s

theorem takes_of_covers
    (h : Tallies d m c) (hg : ∀ s ∈ g.before, s ≠ reservedName) (hcover : Covers m g) :
    List.Subperm g.before c.tokens := by
  rw [List.subperm_ext_iff]
  intro s hs
  have hle := hcover s
  rw [h.state s (hg s hs)] at hle
  exact Int.ofNat_le.mp hle

/-- An exchange leaves the number of agents alone. -/
theorem count_reserved
    (hd : d.WellFormed) (hc : c.Lawful d bound) (hc' : c'.Lawful d bound)
    (hexchange : Configuration.Exchanges c g c') :
    g.before.count reservedName = 0 ∧ g.after.count reservedName = 0 := by
  constructor
  · refine List.count_eq_zero.mpr fun hmem => ?_
    exact hc.ne_reserved hd (hexchange.takes.subset hmem) rfl
  · refine List.count_eq_zero.mpr fun hmem => ?_
    rcases hexchange.mem_of_mem_after hmem with hmem | hmem
    · exact hc'.ne_reserved hd hmem rfl
    · exact hc.ne_reserved hd hmem rfl

/-- The environment synchronizes with a group of agents. -/
theorem guarded
    (hd : d.WellFormed) (h : Tallies d m c) (hc : c.Lawful d bound)
    (hc' : c'.Lawful d bound) (hg : g.Slim) (hexchange : Configuration.Exchanges c g c')
    (name : Text) :
    (Encoding.guarded name g).guard.holds m = true ∧
      (Encoding.guarded name g).updates.Exact m ∧
      Tallies d ((Encoding.guarded name g).updates.apply m) c' := by
  have hcover : Covers m g := h.covers hd hc hexchange.takes
  obtain ⟨hreserved, hreserved'⟩ := count_reserved hd hc hc' hexchange
  have hstate : ∀ s, s ≠ reservedName →
      m.value s - g.before.count s + g.after.count s = c'.tokens.count s := by
    intro s hs
    have hcount := hexchange.count_tokens s
    rw [h.state s hs]
    omega
  have hactive : m.value reservedName - g.before.count reservedName +
      g.after.count reservedName = c'.agents.length := by
    rw [hreserved, hreserved', h.active, hexchange.length_eq]
    omega
  have hexact : (Encoding.guarded name g).updates.Exact m := by
    apply guarded_exact hcover
    intro s
    by_cases hs : s = reservedName
    · have hle := hc'.length_le
      have hlt := bound.toInt_lt
      rw [hs, hactive]
      omega
    · rw [hstate s hs]
      exact hc'.count_tokens_lt hd s
  refine ⟨(guarded_holds_iff hg.count_before_lt h.nonneg name).mpr hcover, hexact, ?_, ?_, ?_⟩
  · intro s hs
    rw [value_apply_guarded hg.count_before_lt hg.count_after_lt hexact, hstate s hs]
  · rw [value_apply_guarded hg.count_before_lt hg.count_after_lt hexact, hactive]
  · intro n
    rw [mem_domain_apply_guarded, h.mem_domain]
    constructor
    · rintro (hmem | hmem | hmem)
      · exact hmem
      · exact hc.mem_counters (hexchange.takes.subset hmem)
      · exact (hexchange.mem_of_mem_after hmem).elim hc'.mem_counters hc.mem_counters
    · exact .inl

/-! ## Firings and steps -/

variable {opts : CompositionOptions} {t : Transition}

/-- Where a guard holds the population can make a step with the same tally. -/
theorem exists_step
    (hd : d.WellFormed) (h : Tallies d m c) (hc : c.Lawful d bound)
    (ht : t ∈ transitions d bound (nameGlobals (compose d opts).transitions))
    (hguard : t.guard.holds m = true) :
    t.updates.Exact m ∧ ∃ c', Configuration.Step d (slotLimit opts.maxConcurrency) bound c c' ∧
      Tallies d (t.updates.apply m) c' := by
  rcases mem_transitions_iff.mp ht with rfl | rfl | ⟨name, g, hmem, rfl⟩
  · have hroom : (c.agents.length : Int) < bound.toInt := by
      rw [← h.active]
      exact spawn_holds_iff.mp hguard
    obtain ⟨-, hexact, htally⟩ := h.spawn hd hc hroom
    exact ⟨hexact, _, .join hroom, htally⟩
  · have hne : d.agent.leave ≠ reservedName := fun heq =>
      hd.reserved_not_agent (heq ▸ hd.leave_mem)
    have hpositive := leave_holds_iff.mp hguard
    rw [h.state _ hne, hc.count_agent hd hd.leave_mem] at hpositive
    have hmem : d.agent.leave ∈ c.agents := List.count_pos_iff.mp (by omega)
    obtain ⟨i, hi⟩ := List.mem_iff_getElem?.mp hmem
    obtain ⟨-, hexact, htally⟩ := h.leave hd hc hi
    exact ⟨hexact, _, .depart hi, htally⟩
  · have hg : Arises d opts.maxConcurrency g :=
      arises_of_mem_compose (mem_of_mem_nameGlobals hmem)
    have hslim := hg.slim hd
    have hcover := (guarded_holds_iff hslim.count_before_lt h.nonneg name).mp hguard
    have htakes := h.takes_of_covers (hg.before_ne_reserved hd) hcover
    obtain ⟨c', hstep, hexchange⟩ := Configuration.exists_step_of_arises hd hc hg htakes
    obtain ⟨-, hexact, htally⟩ := h.guarded hd hc (hc.step hd hstep) hslim hexchange name
    exact ⟨hexact, c', hstep, htally⟩

/-- Every step of the population is a firing with the same tally. -/
theorem exists_firing
    (hd : d.WellFormed) (h : Tallies d m c) (hc : c.Lawful d bound)
    (hstep : Configuration.Step d (slotLimit opts.maxConcurrency) bound c c') :
    ∃ t ∈ transitions d bound (nameGlobals (compose d opts).transitions),
      t.guard.holds m = true ∧ Tallies d (t.updates.apply m) c' := by
  have hc' := hc.step hd hstep
  cases hstep with
  | join hroom =>
      obtain ⟨hguard, -, htally⟩ := h.spawn hd hc hroom
      exact ⟨_, mem_transitions_iff.mpr (.inl rfl), hguard, htally⟩
  | depart hleave =>
      obtain ⟨hguard, -, htally⟩ := h.leave hd hc hleave
      exact ⟨_, mem_transitions_iff.mpr (.inr (.inl rfl)), hguard, htally⟩
  | synchronize het hbefore hexpands hpicked hperformed =>
      obtain ⟨g, hg, hexchange⟩ :=
        Configuration.exists_arises_of_performed het hbefore hexpands hpicked hperformed
      -- Deduplication may list another order of the participants.
      obtain ⟨listed, hmem, hequiv⟩ := hg.exists_equivalent hd opts
      have hlisted := arises_of_mem_compose hmem
      obtain ⟨hbefore', hafter'⟩ := hlisted.sides_perm hg hequiv
      obtain ⟨name, hname⟩ := exists_mem_nameGlobals hmem
      obtain ⟨hguard, -, htally⟩ :=
        h.guarded hd hc hc' (hlisted.slim hd) (hexchange.of_perm hbefore' hafter') name
      exact ⟨_, mem_transitions_iff.mpr (.inr (.inr ⟨name, listed, hname, rfl⟩)),
        hguard, htally⟩

end Tallies

end Population
