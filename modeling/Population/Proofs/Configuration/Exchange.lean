import Population.Proofs.Configuration.Basic

/-!
# Synchronizations as exchanges

Seen from far enough, a synchronization takes some states out of the population
and puts others in.  The exchanges that populations can make are exactly those
of the global transitions: whichever agents are picked, some global transition
takes and gives the same states, and wherever the states of a global transition
are there to be taken, agents can be picked for it.
-/

namespace Population

namespace Configuration

/-- The states that are occupied, as often as they are. -/
def tokens (c : Configuration) : List Text :=
  c.environment :: c.agents

/-- The population is made of declared states and respects the bound. -/
structure Lawful (d : Description) (bound : Int64) (c : Configuration) : Prop where
  environment_mem : c.environment ∈ d.environment.states
  agents_subset : c.agents ⊆ d.agent.stateNames
  length_le : (c.agents.length : Int) ≤ bound.toInt

/-- The population changes by the exchange of a global transition. -/
structure Exchanges (c : Configuration) (g : GlobalTransition) (c' : Configuration) : Prop where
  takes : List.Subperm g.before c.tokens
  balance : (c'.tokens ++ g.before).Perm (c.tokens ++ g.after)
  length_eq : c'.agents.length = c.agents.length

variable {d : Description} {bound : Int64} {c c' : Configuration} {g : GlobalTransition}

theorem Exchanges.of_perm
    {g' : GlobalTransition} (h : Exchanges c g c') (hbefore : g'.before.Perm g.before)
    (hafter : g'.after.Perm g.after) : Exchanges c g' c' where
  takes := hbefore.subperm.trans h.takes
  balance := (hbefore.append_left _).trans (h.balance.trans (hafter.symm.append_left _))
  length_eq := h.length_eq

/-- Every state loses what is taken and gains what is given. -/
theorem Exchanges.count_tokens (h : Exchanges c g c') (s : Text) :
    c'.tokens.count s + g.before.count s = c.tokens.count s + g.after.count s := by
  have hcount := h.balance.count_eq s
  rwa [List.count_append, List.count_append] at hcount

theorem Exchanges.mem_of_mem_after (h : Exchanges c g c') {s : Text} (hs : s ∈ g.after) :
    s ∈ c'.tokens ∨ s ∈ c.tokens := by
  have hmem : s ∈ c'.tokens ++ g.before :=
    h.balance.symm.subset (List.mem_append_right _ hs)
  exact (List.mem_append.mp hmem).imp_right fun hbefore => h.takes.subset hbefore

/-! ## Lawful populations -/

theorem lawful_start (hd : d.WellFormed) (hbound : 0 ≤ bound.toInt) :
    (start d).Lawful d bound where
  environment_mem := hd.environmentInitial_mem
  agents_subset := List.nil_subset _
  length_le := hbound

theorem Picked.move_subset
    {agents : List Text} {picks : List Pick} (h : Picked agents picks) {s : Text}
    (hs : s ∈ move agents picks) :
    s ∈ agents ∨ ∃ p ∈ picks, p.transition.after = s := by
  have hmem : s ∈ agents ++ picks.map (·.transition.after) :=
    h.move_append_perm.subset (List.mem_append_left _ hs)
  rcases List.mem_append.mp hmem with hagent | hafter
  · exact .inl hagent
  · exact .inr (List.mem_map.mp hafter)

theorem Lawful.step
    {limit : Nat} (hd : d.WellFormed) (h : c.Lawful d bound)
    (hstep : Step d limit bound c c') : c'.Lawful d bound := by
  cases hstep with
  | join hroom =>
      refine ⟨h.environment_mem, ?_, ?_⟩
      · exact List.append_subset.mpr ⟨h.agents_subset, by simpa using hd.initial_mem⟩
      · rw [List.length_append, List.length_singleton]
        omega
  | @depart i hleave =>
      refine ⟨h.environment_mem, ?_, ?_⟩
      · exact fun s hs => h.agents_subset (List.mem_of_mem_eraseIdx hs)
      · have hshorter : (c.agents.eraseIdx i).length ≤ c.agents.length :=
          (List.eraseIdx_sublist c.agents i).length_le
        exact le_trans (Int.ofNat_le.mpr hshorter) h.length_le
  | synchronize het _ _ hpicked hperformed =>
      refine ⟨(hd.environment_mem _ het).2, ?_, ?_⟩
      · intro s hs
        rcases hpicked.move_subset hs with hagent | ⟨p, hp, rfl⟩
        · exact h.agents_subset hagent
        · exact (hd.local_mem _ (hperformed.declared p hp)).2
      · rw [length_move]
        exact h.length_le

/-! ## From picked agents to global transitions -/

theorem Picked.exchanges
    {et : EnvironmentTransition} {picks : List Pick} (hpicked : Picked c.agents picks)
    (hbefore : et.before = c.environment) (actions : List Text) :
    Exchanges c (et.joinedBy actions (picks.map (·.transition)))
      ⟨et.after, move c.agents picks⟩ where
  takes := by
    simp only [GlobalTransition.before, EnvironmentTransition.joinedBy, tokens, hbefore,
      List.map_map]
    exact (List.subperm_cons _).mpr hpicked.subperm
  balance := by
    simp only [GlobalTransition.before, GlobalTransition.after,
      EnvironmentTransition.joinedBy, tokens, hbefore, List.map_map, List.cons_append]
    have hagents := hpicked.move_append_perm
    calc
      (et.after :: (move c.agents picks ++
          c.environment :: picks.map (·.transition.before))).Perm
          (et.after :: c.environment ::
            (move c.agents picks ++ picks.map (·.transition.before))) :=
        List.perm_middle.cons _
      List.Perm _ (et.after :: c.environment ::
          (c.agents ++ picks.map (·.transition.after))) := (hagents.cons _).cons _
      List.Perm _ (c.environment :: et.after ::
          (c.agents ++ picks.map (·.transition.after))) := List.Perm.swap _ _ _
      List.Perm _ (c.environment ::
          (c.agents ++ et.after :: picks.map (·.transition.after))) :=
        List.perm_middle.symm.cons _
  length_eq := length_move c.agents picks

/-- What picked agents perform is the exchange of a synchronization. -/
theorem exists_arises_of_performed
    {limit : Int} {et : EnvironmentTransition} {actions : List Text} {picks : List Pick}
    (het : et ∈ d.environment.transitions) (hbefore : et.before = c.environment)
    (hexpands : Expands (slotLimit limit) et.agents actions)
    (hpicked : Picked c.agents picks) (hperformed : Performed d et actions picks) :
    ∃ g, Arises d limit g ∧ Exchanges c g ⟨et.after, move c.agents picks⟩ := by
  obtain ⟨expansion, hexpansion, hlisted⟩ := exists_mem_expand_of_expands hexpands
  -- Put the picked agents into the order in which the expansion lists their actions.
  have hperforms : List.Forall₂
      (fun action t => t ∈ d.agent.transitions ∧ t.Performs et.sync expansion action)
      (picks.map (·.transition.action)) (picks.map (·.transition)) := by
    rw [List.forall₂_map_left_iff, List.forall₂_map_right_iff, List.forall₂_same]
    intro p hp
    exact ⟨hperformed.declared p hp, rfl, hperformed.sync_eq p hp,
      (hperformed.others p hp).trans (hlisted.symm.erase _)⟩
  have horder : expansion.Perm (picks.map (·.transition.action)) :=
    hlisted.trans hperformed.actions_perm.symm
  obtain ⟨choice, hchoice, hperm⟩ := List.perm_comp_forall₂ horder hperforms
  refine ⟨et.joinedBy expansion choice,
    ⟨et, het, expansion, hexpansion, choice, hchoice.flip, rfl⟩, ?_⟩
  exact (hpicked.exchanges hbefore expansion).of_perm
    ((hperm.map LocalTransition.before).cons et.before)
    ((hperm.map LocalTransition.after).cons et.after)

/-! ## From global transitions to picked agents -/

theorem Lawful.environment_eq_of_mem_tokens
    (hd : d.WellFormed) (h : c.Lawful d bound) {s : Text}
    (hs : s ∈ d.environment.states) (hmem : s ∈ c.tokens) : s = c.environment := by
  rcases List.mem_cons.mp hmem with heq | hagent
  · exact heq
  · exact absurd (h.agents_subset hagent) (hd.disjoint s hs)

/-- Where its states are there to be taken, a synchronization can be performed. -/
theorem exists_step_of_arises
    {limit : Int} (hd : d.WellFormed) (h : c.Lawful d bound) (hg : Arises d limit g)
    (htakes : List.Subperm g.before c.tokens) :
    ∃ c', Step d (slotLimit limit) bound c c' ∧ Exchanges c g c' := by
  have hmem : g.envBefore ∈ c.tokens := htakes.subset List.mem_cons_self
  have henvironment := h.environment_eq_of_mem_tokens hd (hg.envBefore_mem hd) hmem
  obtain ⟨et, het, expansion, hexpansion, choice, hchoice, rfl⟩ := hg
  have hbefore : et.before = c.environment := henvironment
  have hagents : List.Subperm (choice.map (·.before)) c.agents := by
    simp only [GlobalTransition.before, EnvironmentTransition.joinedBy, tokens, hbefore]
      at htakes
    exact (List.subperm_cons _).mp htakes
  obtain ⟨picks, rfl, hpicked⟩ := exists_picked hagents
  have hperforms : ∀ p ∈ picks, p.transition ∈ d.agent.transitions ∧
      p.transition.Performs et.sync expansion p.transition.action :=
    fun p hp => hchoice.forall_mem (List.mem_map.mpr ⟨p, hp, rfl⟩)
  have hactions : picks.map (·.transition.action) = expansion := by
    have hmap := hchoice.map_action
    rwa [List.map_map] at hmap
  have hperformed : Performed d et expansion picks :=
    ⟨fun p hp => (hperforms p hp).1, fun p hp => (hperforms p hp).2.sync_eq,
      List.Perm.of_eq hactions, fun p hp => (hperforms p hp).2.others⟩
  exact ⟨⟨et.after, move c.agents picks⟩,
    .synchronize het hbefore (expands_of_mem_expand hexpansion) hpicked hperformed,
    hpicked.exchanges hbefore expansion⟩

end Configuration

end Population
