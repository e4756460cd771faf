import Population.Proofs.Composition.Synchronization
import Population.Proofs.Description.WellFormed
import Mathlib.Algebra.Group.Nat.Defs

/-!
# The two sides of a global transition

A global transition takes one token from the environment state and from each
participant's state before, and gives one to each state after.  What it takes
stands in declared states, and both sides are so short that multiplicities fit
into counters.  They are the same for all transitions of one class of
deduplication.
-/

namespace Population

namespace GlobalTransition

/-- The states whose tokens a global transition takes. -/
def before (g : GlobalTransition) : List Text :=
  g.envBefore :: g.agentBefore

/-- The states whose tokens a global transition gives. -/
def after (g : GlobalTransition) : List Text :=
  g.envAfter :: g.agentAfter

/-- The sides have so few members that their multiplicities fit into counters. -/
structure Slim (g : GlobalTransition) : Prop where
  before_lt : g.before.length < 2 ^ 63
  after_lt : g.after.length < 2 ^ 63

theorem Slim.count_before_lt {g : GlobalTransition} (hg : g.Slim) (s : Text) :
    g.before.count s < 2 ^ 63 :=
  Nat.lt_of_le_of_lt List.count_le_length hg.before_lt

theorem Slim.count_after_lt {g : GlobalTransition} (hg : g.Slim) (s : Text) :
    g.after.count s < 2 ^ 63 :=
  Nat.lt_of_le_of_lt List.count_le_length hg.after_lt

end GlobalTransition

theorem EnvironmentTransition.moves_joinedBy
    (et : EnvironmentTransition) (expansion : List Text) (choice : List LocalTransition) :
    (et.joinedBy expansion choice).moves =
      choice.map fun t => (t.before, t.action, t.after) := by
  simp only [GlobalTransition.moves, EnvironmentTransition.joinedBy]
  rw [List.zip_map', List.zip_map']

namespace Arises

variable {d : Description} {limit : Int} {g : GlobalTransition}

/-- Nobody realizes an action in a group that no line could name. -/
theorem length_choice_le
    (hd : d.WellFormed) {sync : Text} {expansion : List Text}
    {choice : List LocalTransition}
    (h : Realizes d.agent.transitions sync expansion choice expansion) :
    choice.length ≤ Description.lineLimit := by
  have hlength : choice.length = expansion.length := List.Forall₂.length_eq h
  unfold Realizes at h
  cases choice with
  | nil => simp
  | cons t rest =>
      obtain ⟨action, tail, ⟨ht, hperforms⟩, -, rfl⟩ := List.forall₂_cons_left_iff.mp h
      have hshort := hd.concurrent_short t ht
      have hothers : t.concurrent.length = ((action :: tail).erase action).length :=
        hperforms.others.length_eq
      rw [List.erase_cons_head] at hothers
      rw [hlength, List.length_cons]
      omega

theorem slim (hd : d.WellFormed) (h : Arises d limit g) : g.Slim := by
  obtain ⟨et, -, expansion, -, choice, hchoice, rfl⟩ := h
  have hlength := length_choice_le hd hchoice
  have hlimit : Description.lineLimit + 1 < 2 ^ 63 := by decide
  constructor
  · simp only [GlobalTransition.before, EnvironmentTransition.joinedBy,
      List.length_cons, List.length_map]
    omega
  · simp only [GlobalTransition.after, EnvironmentTransition.joinedBy,
      List.length_cons, List.length_map]
    omega

theorem envBefore_mem (hd : d.WellFormed) (h : Arises d limit g) :
    g.envBefore ∈ d.environment.states := by
  obtain ⟨et, het, expansion, -, choice, -, rfl⟩ := h
  exact (hd.environment_mem et het).1

theorem envAfter_mem (hd : d.WellFormed) (h : Arises d limit g) :
    g.envAfter ∈ d.environment.states := by
  obtain ⟨et, het, expansion, -, choice, -, rfl⟩ := h
  exact (hd.environment_mem et het).2

theorem agentBefore_subset (hd : d.WellFormed) (h : Arises d limit g) :
    g.agentBefore ⊆ d.agent.stateNames := by
  obtain ⟨et, -, expansion, -, choice, hchoice, rfl⟩ := h
  intro s hs
  obtain ⟨t, ht, rfl⟩ := List.mem_map.mp hs
  exact (hd.local_mem t (hchoice.forall_mem ht).1).1

theorem agentAfter_subset (hd : d.WellFormed) (h : Arises d limit g) :
    g.agentAfter ⊆ d.agent.stateNames := by
  obtain ⟨et, -, expansion, -, choice, hchoice, rfl⟩ := h
  intro s hs
  obtain ⟨t, ht, rfl⟩ := List.mem_map.mp hs
  exact (hd.local_mem t (hchoice.forall_mem ht).1).2

theorem before_ne_reserved (hd : d.WellFormed) (h : Arises d limit g) :
    ∀ s ∈ g.before, s ≠ reservedName := by
  rintro s hs rfl
  rcases List.mem_cons.mp hs with heq | hagent
  · exact hd.reserved_not_environment (heq ▸ h.envBefore_mem hd)
  · exact hd.reserved_not_agent (h.agentBefore_subset hd hagent)

theorem named (hd : d.WellFormed) (h : Arises d limit g) : g.Named := by
  obtain ⟨et, het, expansion, hexpansion, choice, hchoice, rfl⟩ := h
  obtain ⟨hbefore, hafter⟩ := hd.environment_mem et het
  obtain ⟨hsync, hagents⟩ := hd.environmentAction_valid et het
  refine ⟨hd.environmentName_valid _ hbefore, hsync, hd.environmentName_valid _ hafter, ?_⟩
  intro move hmove
  rw [et.moves_joinedBy] at hmove
  obtain ⟨t, ht, rfl⟩ := List.mem_map.mp hmove
  obtain ⟨hlocalBefore, hlocalAfter⟩ := hd.local_mem t (hchoice.forall_mem ht).1
  have haction : t.action ∈ expansion := by
    rw [← hchoice.map_action]
    exact List.mem_map.mpr ⟨t, ht, rfl⟩
  simp only [List.forall_mem_cons, List.not_mem_nil, false_implies, implies_true, and_true]
  exact ⟨hd.agentName_valid _ hlocalBefore, hagents _ (subset_of_mem_expand hexpansion haction),
    hd.agentName_valid _ hlocalAfter⟩

theorem agentBefore_eq (h : Arises d limit g) : g.agentBefore = g.moves.map (·.1) := by
  obtain ⟨et, -, expansion, -, choice, -, rfl⟩ := h
  rw [et.moves_joinedBy, List.map_map]
  rfl

theorem agentAfter_eq (h : Arises d limit g) : g.agentAfter = g.moves.map (·.2.2) := by
  obtain ⟨et, -, expansion, -, choice, -, rfl⟩ := h
  rw [et.moves_joinedBy, List.map_map]
  rfl

/-- The sides do not depend on the order of the participants. -/
theorem sides_perm
    {listed : GlobalTransition} (hlisted : Arises d limit listed) (h : Arises d limit g)
    (hequiv : listed.Equivalent g) :
    listed.before.Perm g.before ∧ listed.after.Perm g.after := by
  rw [GlobalTransition.before, GlobalTransition.before, GlobalTransition.after,
    GlobalTransition.after, hequiv.envBefore, hequiv.envAfter, hlisted.agentBefore_eq,
    h.agentBefore_eq, hlisted.agentAfter_eq, h.agentAfter_eq]
  exact ⟨(hequiv.moves.map _).cons _, (hequiv.moves.map _).cons _⟩

/-- Composition lists every synchronization or an equivalent one. -/
theorem exists_equivalent
    (hd : d.WellFormed) (opts : CompositionOptions) (h : Arises d opts.maxConcurrency g) :
    ∃ listed ∈ (compose d opts).transitions, listed.Equivalent g := by
  obtain ⟨listed, hmem, hcanonical⟩ := exists_mem_compose_of_arises hd opts h
  have hlisted := arises_of_mem_compose hmem
  exact ⟨listed, hmem,
    (GlobalTransition.canonical_eq_iff (hlisted.named hd) (h.named hd)).mp hcanonical⟩

end Arises

end Population
