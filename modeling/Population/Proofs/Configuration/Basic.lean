import Population.Proofs.Composition.Sides
import Mathlib.Data.List.NodupEquivFin
import Mathlib.Logic.Relation

/-!
# Concrete populations

A configuration holds the state of the environment and the state of each single
agent.  Agents join and depart, and the environment synchronizes with a group of
agents: each member is picked by its position in the population and performs one
of its local transitions.  The rules refer to the description only; they know
neither global transitions nor counters.
-/

namespace Population

/-- The environment and every single agent. -/
structure Configuration where
  /-- The state of the environment. -/
  environment : Text
  /-- The states of the agents. -/
  agents : List Text

/-- An agent that takes part in a synchronization. -/
structure Pick where
  /-- The agent's place in the population. -/
  position : Nat
  /-- The local transition that it performs. -/
  transition : LocalTransition

namespace Configuration

/-- The picked agents move to the states after. -/
def move (agents : List Text) (picks : List Pick) : List Text :=
  picks.foldl (fun agents p => agents.set p.position p.transition.after) agents

/-- The picked agents are different ones and stand where their local transitions
start. -/
structure Picked (agents : List Text) (picks : List Pick) : Prop where
  distinct : (picks.map (·.position)).Nodup
  stands : ∀ p ∈ picks, agents[p.position]? = some p.transition.before

/-- The picked agents perform `actions` with the environment: together they
perform each action as often as it is listed, and each of them expects exactly
the others. -/
structure Performed
    (d : Description) (et : EnvironmentTransition) (actions : List Text)
    (picks : List Pick) : Prop where
  declared : ∀ p ∈ picks, p.transition ∈ d.agent.transitions
  sync_eq : ∀ p ∈ picks, p.transition.sync = et.sync
  actions_perm : (picks.map (·.transition.action)).Perm actions
  others : ∀ p ∈ picks,
    p.transition.concurrent.Perm (actions.erase p.transition.action)

/-- One step of a population whose slots are filled by up to `limit` agents and
that has at most `bound` agents. -/
inductive Step (d : Description) (limit : Nat) (bound : Int64) :
    Configuration → Configuration → Prop
  | join {c : Configuration} (hroom : (c.agents.length : Int) < bound.toInt) :
      Step d limit bound c ⟨c.environment, c.agents ++ [d.agent.initial]⟩
  | depart {c : Configuration} {i : Nat} (hleave : c.agents[i]? = some d.agent.leave) :
      Step d limit bound c ⟨c.environment, c.agents.eraseIdx i⟩
  | synchronize {c : Configuration} {et : EnvironmentTransition} {actions : List Text}
      {picks : List Pick}
      (het : et ∈ d.environment.transitions) (hbefore : et.before = c.environment)
      (hexpands : Expands limit et.agents actions)
      (hpicked : Picked c.agents picks) (hperformed : Performed d et actions picks) :
      Step d limit bound c ⟨et.after, move c.agents picks⟩

/-- The environment at its start and no agents. -/
def start (d : Description) : Configuration :=
  ⟨d.environment.initial, []⟩

/-- Finitely many steps lead from the start to this configuration. -/
def Reachable (d : Description) (limit : Nat) (bound : Int64) (c : Configuration) : Prop :=
  Relation.ReflTransGen (Step d limit bound) (start d) c

/-! ## Moving picked agents -/

theorem move_cons (agents : List Text) (p : Pick) (picks : List Pick) :
    move agents (p :: picks) =
      move (agents.set p.position p.transition.after) picks := rfl

theorem length_move (agents : List Text) (picks : List Pick) :
    (move agents picks).length = agents.length := by
  induction picks generalizing agents with
  | nil => rfl
  | cons p rest ih => rw [move_cons, ih, List.length_set]

/-- Replacing an agent exchanges one state for another. -/
theorem set_append_perm
    {agents : List Text} {i : Nat} {s : Text} (h : agents[i]? = some s) (s' : Text) :
    (agents.set i s' ++ [s]).Perm (agents ++ [s']) := by
  obtain ⟨hi, rfl⟩ := List.getElem?_eq_some_iff.mp h
  calc
    (agents.set i s' ++ [agents[i]]).Perm (s' :: agents.eraseIdx i ++ [agents[i]]) :=
      (List.set_perm_cons_eraseIdx hi s').append_right _
    List.Perm _ (s' :: (agents[i] :: agents.eraseIdx i)) :=
      (List.perm_append_singleton _ _).cons s'
    List.Perm _ (s' :: agents) := (List.getElem_cons_eraseIdx_perm hi).cons s'
    List.Perm _ (agents ++ [s']) := (List.perm_append_singleton s' agents).symm

/-- Moving exchanges the states before for the states after. -/
theorem Picked.move_append_perm
    {agents : List Text} {picks : List Pick} (h : Picked agents picks) :
    (move agents picks ++ picks.map (·.transition.before)).Perm
      (agents ++ picks.map (·.transition.after)) := by
  induction picks generalizing agents with
  | nil => exact List.Perm.refl _
  | cons p rest ih =>
      obtain ⟨hfresh, hdistinct⟩ := List.nodup_cons.mp h.distinct
      have hrest : Picked (agents.set p.position p.transition.after) rest := by
        refine ⟨hdistinct, ?_⟩
        intro q hq
        have hne : p.position ≠ q.position := by
          intro heq
          exact hfresh (List.mem_map.mpr ⟨q, hq, heq.symm⟩)
        rw [List.getElem?_set_ne hne]
        exact h.stands q (List.mem_cons_of_mem p hq)
      have hfirst := set_append_perm (h.stands p List.mem_cons_self) p.transition.after
      rw [move_cons, List.map_cons, List.map_cons]
      -- The first agent's state before goes past the others'.
      calc
        (move (agents.set p.position p.transition.after) rest ++
            p.transition.before :: rest.map (·.transition.before)).Perm
            ((move (agents.set p.position p.transition.after) rest ++
              rest.map (·.transition.before)) ++ [p.transition.before]) := by
          rw [List.append_assoc]
          exact (List.perm_append_singleton _ _).symm.append_left _
        List.Perm _ ((agents.set p.position p.transition.after ++
            rest.map (·.transition.after)) ++ [p.transition.before]) :=
          (ih hrest).append_right _
        List.Perm _ ((agents.set p.position p.transition.after ++ [p.transition.before]) ++
            rest.map (·.transition.after)) := by
          rw [List.append_assoc, List.append_assoc]
          exact List.perm_append_comm.append_left _
        List.Perm _ ((agents ++ [p.transition.after]) ++ rest.map (·.transition.after)) :=
          hfirst.append_right _
        List.Perm _ (agents ++ p.transition.after :: rest.map (·.transition.after)) := by
          rw [List.append_assoc]
          exact List.Perm.refl _

/-- The states before are among the agents' states. -/
theorem Picked.subperm
    {agents : List Text} {picks : List Pick} (h : Picked agents picks) :
    List.Subperm (picks.map (·.transition.before)) agents := by
  have hrange : picks.map (·.position) ⊆ List.range agents.length := by
    intro i hi
    obtain ⟨p, hp, rfl⟩ := List.mem_map.mp hi
    obtain ⟨hlt, -⟩ := List.getElem?_eq_some_iff.mp (h.stands p hp)
    exact List.mem_range.mpr hlt
  obtain ⟨positions, hperm, hsublist⟩ := List.subperm_of_subset h.distinct hrange
  let state (i : Nat) : Text := agents[i]?.getD []
  have hbefore : (picks.map (·.position)).map state = picks.map (·.transition.before) := by
    rw [List.map_map]
    apply List.map_congr_left
    intro p hp
    simp [state, h.stands p hp]
  have hagents : (List.range agents.length).map state = agents := by
    apply List.ext_getElem
    · simp
    · intro i _ hi
      simp [state, hi]
  have hmapped : (positions.map state).Sublist agents := by
    rw [← hagents]
    exact hsublist.map state
  have hmapped_perm : (positions.map state).Perm (picks.map (·.transition.before)) := by
    rw [← hbefore]
    exact hperm.map state
  exact ⟨positions.map state, hmapped_perm, hmapped⟩

theorem exists_picks_of_forall₂
    {agents : List Text} {choice : List LocalTransition} {positions : List Nat}
    (h : List.Forall₂ (fun t i => agents[i]? = some t.before) choice positions) :
    ∃ picks : List Pick, picks.map (·.transition) = choice ∧ picks.map (·.position) = positions ∧
      ∀ p ∈ picks, agents[p.position]? = some p.transition.before := by
  induction h with
  | nil => exact ⟨[], rfl, rfl, by simp⟩
  | @cons t i _ _ hfirst _ ih =>
      obtain ⟨picks, rfl, rfl, hstands⟩ := ih
      exact ⟨⟨i, t⟩ :: picks, rfl, rfl, List.forall_mem_cons.mpr ⟨hfirst, hstands⟩⟩

/-- Where the agents' states include the states before of some local
transitions, different agents can be picked for them. -/
theorem exists_picked
    {agents : List Text} {choice : List LocalTransition}
    (h : List.Subperm (choice.map (·.before)) agents) :
    ∃ picks : List Pick, picks.map (·.transition) = choice ∧ Picked agents picks := by
  obtain ⟨states, hperm, hsublist⟩ := h
  obtain ⟨positions, rfl, hascending⟩ := List.sublist_eq_map_getElem hsublist
  -- The positions hold the states of the sublist; reorder them along the choice.
  have hholds : List.Forall₂ (fun s i => agents[i]? = some s)
      (positions.map fun i => agents[i]) (positions.map fun i => i.val) := by
    rw [List.forall₂_map_left_iff, List.forall₂_map_right_iff, List.forall₂_same]
    intro i _
    simp
  obtain ⟨reordered, hreordered, hpositions⟩ :=
    List.perm_comp_forall₂ hperm.symm hholds
  rw [List.forall₂_map_left_iff] at hreordered
  obtain ⟨picks, hchoice, rfl, hstands⟩ := exists_picks_of_forall₂ hreordered
  refine ⟨picks, hchoice, ?_, hstands⟩
  rw [hpositions.nodup_iff]
  have hdistinct : positions.Nodup := hascending.imp fun hlt => ne_of_lt hlt
  exact List.Nodup.map Fin.val_injective hdistinct

end Configuration

end Population
