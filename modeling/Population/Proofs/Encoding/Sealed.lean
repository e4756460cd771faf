import Population.Proofs.Encoding.Abstraction
import Population.Proofs.Simulation.Trace

/-!
# Systems without room for agents

With an instance bound of zero no agent ever joins, and the environment is left
alone.  It can still move by itself, through transitions that name no action of an
agent.  So nothing ever fires but global transitions without participants, and
nothing at all fires at the start exactly where every transition that leaves the
environment's initial state needs an agent.
-/

namespace Population

open Encoding

/-- Every transition that leaves the environment's initial state needs an agent. -/
def Environment.WaitsForAgents (e : Environment) : Prop :=
  ∀ et ∈ e.transitions, et.before = e.initial → et.agents ≠ []

instance (e : Environment) : Decidable e.WaitsForAgents :=
  inferInstanceAs (Decidable (∀ et ∈ e.transitions, et.before = e.initial → et.agents ≠ []))

/-- A slot that is named is filled by somebody. -/
theorem Expands.eq_nil {limit : Nat} {slots : List Text} (h : Expands limit slots []) :
    slots = [] := by
  obtain ⟨blocks, hblocks, hperm⟩ := h
  cases hblocks with
  | nil => rfl
  | cons hfirst _ =>
      obtain ⟨n, hpos, -, rfl⟩ := hfirst
      have hlength := hperm.length_eq
      simp only [List.length_nil, List.flatten_cons, List.length_append, List.length_replicate]
        at hlength
      omega

namespace Configuration

variable {d : Description} {limit : Nat} {c : Configuration}

theorem Lawful.agents_eq_nil (h : c.Lawful d 0) : c.agents = [] := by
  have hle : (c.agents.length : Int) ≤ 0 := h.length_le
  exact List.eq_nil_of_length_eq_zero (by omega)

/-- Without agents the environment can only make the moves that need none. -/
theorem exists_step_start_iff :
    (∃ c', Step d limit 0 (start d) c') ↔ ¬d.environment.WaitsForAgents := by
  unfold Environment.WaitsForAgents
  push Not
  constructor
  · rintro ⟨c', hstep⟩
    cases hstep with
    | join hroom => simp [start] at hroom
    | depart hleave => simp [start] at hleave
    | @synchronize et actions picks het hbefore hexpands hpicked hperformed =>
        have hpicks : picks = [] := by
          refine List.eq_nil_iff_forall_not_mem.mpr fun p hp => ?_
          simpa [start] using hpicked.stands p hp
        have hactions := hperformed.actions_perm
        rw [hpicks, List.map_nil] at hactions
        rw [← hactions.nil_eq] at hexpands
        exact ⟨et, het, hbefore, hexpands.eq_nil⟩
  · rintro ⟨et, het, hbefore, hagents⟩
    have hexpands : Expands limit et.agents [] := ⟨[], by rw [hagents]; exact .nil, .nil⟩
    have hpicked : Picked (start d).agents [] := ⟨List.nodup_nil, by simp⟩
    have hperformed : Performed d et [] [] := ⟨by simp, by simp, .nil, by simp⟩
    exact ⟨_, .synchronize het hbefore hexpands hpicked hperformed⟩

end Configuration

section Sealed

variable {d : Description} {opts : CompositionOptions} {enc : Encoding} {m next : Marking}

/-- Without room for agents only global transitions without participants fire. -/
theorem participants_eq_zero_of_fire
    (h : enc.Abstracts d opts 0) (hm : enc.system.Reachable m) {t : Transition}
    (ht : t ∈ enc.system.transitions) (hfire : t.fire? m = some next) :
    ∃ g, (t.name, g) ∈ enc.globals ∧ g.participants = 0 := by
  have hd := h.wellFormed
  obtain ⟨c, -, hlawful, htally⟩ := exists_population h hm
  have hagents := hlawful.agents_eq_nil
  obtain ⟨hguard, -, -⟩ := Transition.fire?_eq_some_iff.mp hfire
  rcases h.mem_transitions_iff.mp ht with rfl | rfl | ⟨name, g, hmem, rfl⟩
  · have hroom := spawn_holds_iff.mp hguard
    rw [htally.active, hagents] at hroom
    exact absurd hroom (by decide)
  · have hpositive := leave_holds_iff.mp hguard
    rw [(htally.represents hd hlawful).agent _ hd.leave_mem, hagents] at hpositive
    simp at hpositive
  · have hg := h.arises hmem
    have hcover := (guarded_holds_iff (hg.slim hd).count_before_lt htally.nonneg name).mp hguard
    have htakes := htally.takes_of_covers (hg.before_ne_reserved hd) hcover
    have hlength := htakes.length_le
    rw [Configuration.tokens, hagents, GlobalTransition.before] at hlength
    simp only [List.length_cons, List.length_nil] at hlength
    exact ⟨g, hmem, by rw [GlobalTransition.participants]; omega⟩

/-- Nothing is fireable at the start exactly where the environment waits. -/
theorem fireable_initial_eq_nil_iff (h : enc.Abstracts d opts 0) :
    enc.system.fireable enc.system.initial = [] ↔ d.environment.WaitsForAgents := by
  have hd := h.wellFormed
  have hlawful := Configuration.lawful_start hd h.bound_nonneg
  have htally := tallies_initial h
  have hmoves : (∃ c', Configuration.Step d (slotLimit opts.maxConcurrency) 0
      (Configuration.start d) c') ↔ ¬d.environment.WaitsForAgents :=
    Configuration.exists_step_start_iff
  rw [← not_iff_not, ← hmoves]
  constructor
  · intro hsome
    obtain ⟨step, hstep⟩ := List.exists_mem_of_ne_nil _ hsome
    obtain ⟨t, ht, -, hfire⟩ := CounterSystem.mem_fireable_iff.mp hstep
    obtain ⟨hguard, -, -⟩ := Transition.fire?_eq_some_iff.mp hfire
    rw [h.encodes.transitions_eq] at ht
    obtain ⟨-, c', hmove, -⟩ := htally.exists_step hd hlawful ht hguard
    exact ⟨c', hmove⟩
  · rintro ⟨c', hmove⟩
    obtain ⟨t, ht, hguard, htally'⟩ := htally.exists_firing hd hlawful hmove
    rw [← h.encodes.transitions_eq] at ht
    refine List.ne_nil_of_mem (a := ⟨t.name, t.updates.apply enc.system.initial⟩) ?_
    exact CounterSystem.mem_fireable_iff.mpr ⟨t, ht, rfl, htally'.fire? hguard⟩

end Sealed

/-- With an instance bound of zero no simulation moves an agent: all that fires are
global transitions without participants.  A run that is not cancelled at once stays
at the start and is terminal exactly where every transition that leaves the
environment's initial state needs an agent. -/
theorem sealed_system_runs
    {text : Text} {d : Description} (hread : Description.read text = .ok d)
    (opts : CompositionOptions) (name : Text) :
    ∃ enc, encode d (compose d opts).transitions ⟨0, name⟩ = .ok enc ∧
      (enc.system.fireable enc.system.initial = [] ↔ d.environment.WaitsForAgents) ∧
      ∀ {σ : Type} (picker : Picker σ) (steps : Int) (allowance : Allowance) (s : σ),
        ∃ r, simulate picker enc.system steps allowance s enc.system.initial = r ∧
          (∀ e ∈ r.trace.tail, ∃ g, (e.transition, g) ∈ enc.globals ∧ g.participants = 0) ∧
          (allowance.isCancelled = false →
            (r.trace = [⟨startEntry, enc.system.initial⟩] ∧ r.terminal = true ↔
              d.environment.WaitsForAgents)) := by
  obtain ⟨enc, hencode, h⟩ := exists_abstracts hread opts (Int64.le_refl 0) name
  refine ⟨enc, hencode, fireable_initial_eq_nil_iff h, fun picker steps allowance s => ?_⟩
  refine ⟨_, rfl, ?_, fun hallowance => ?_⟩
  · obtain ⟨firings, s', m', hchooses, htrace, -⟩ :=
      simulate_spec picker enc.system steps allowance s enc.system.initial
    rw [htrace, List.tail_cons]
    intro e he
    obtain ⟨before, hbefore, hmem⟩ := hchooses.exists_reachable .initial e he
    obtain ⟨t, ht, hname, hfire⟩ := CounterSystem.mem_fireable_iff.mp hmem
    rw [← hname]
    exact participants_eq_zero_of_fire h hbefore ht hfire
  · rw [simulate_stays_iff picker enc.system steps s _ hallowance]
    exact fireable_initial_eq_nil_iff h

theorem sealed_system_runs_relay :
    ∃ d enc, Description.read (relayText "done") = .ok d ∧ d.environment.WaitsForAgents ∧
      encode d (compose d ⟨2, true⟩).transitions ⟨0, []⟩ = .ok enc ∧
      enc.system.fireable enc.system.initial = [] ∧
      (simulate .choice enc.system 25 .unlimited .first enc.system.initial).trace =
        [⟨startEntry, enc.system.initial⟩] ∧
      (simulate .choice enc.system 25 .unlimited .first enc.system.initial).terminal = true := by
  obtain ⟨d, hread, hwaits⟩ := Description.exists_eq_ok_of_any
    (x := Description.read (relayText "done"))
    (p := fun d => decide d.environment.WaitsForAgents) (by decide +kernel)
  obtain ⟨enc, hencode, hstart, hruns⟩ := sealed_system_runs hread ⟨2, true⟩ []
  obtain ⟨_, rfl, -, hstays⟩ := hruns .choice 25 .unlimited .first
  have hd := of_decide_eq_true hwaits
  exact ⟨d, enc, hread, hd, hencode, hstart.mpr hd, (hstays rfl).mpr hd⟩

/-- The environment ticks once, and nobody has to be there. -/
def tickText : Text :=
  Text.cat
    ["idle: 1\n", "go\n", "idle\n", "idle\n", "s0, s1\n", "tick\n", "s0\n", "s0,tick,,s1\n"]

/-- The environment moves by itself in a system that no agent can join. -/
theorem sealed_environment_ticks :
    ∃ d enc, Description.read tickText = .ok d ∧
      encode d (compose d ⟨2, false⟩).transitions ⟨0, []⟩ = .ok enc ∧
      enc.system.fireable enc.system.initial ≠ [] ∧
      (simulate .choice enc.system 1 .unlimited .first enc.system.initial).trace.map
        (·.transition) = [startEntry, "t1"] := by
  obtain ⟨d, hread, hrun⟩ := Description.exists_eq_ok_of_any
    (x := Description.read tickText)
    (p := fun d =>
      (encode d (compose d ⟨2, false⟩).transitions ⟨0, []⟩).toOption.any fun enc =>
        enc.system.fireable enc.system.initial ≠ [] ∧
          (simulate .choice enc.system 1 .unlimited .first enc.system.initial).trace.map
            (·.transition) = [startEntry, "t1"]) (by decide +kernel)
  obtain ⟨enc, hencode, hmoves⟩ := Description.exists_eq_ok_of_any hrun
  exact ⟨d, enc, hread, hencode, of_decide_eq_true hmoves⟩

end Population
