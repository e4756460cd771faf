import Population.Proofs.Encoding.Safety

/-!
# Hazards are complete under covering

The exact question about a hazard overlooks agents that stand by.  The weaker
question, whether a marking holds at least what the hazard needs, overlooks
nothing: from a covering marking the transitions of the hazard fire, whoever
else is there, and a firing that first occupies a forbidden state starts from a
marking that covers a hazard.  Only agents that join in a forbidden state escape
both questions.
-/

namespace Population

open Encoding

variable {d : Description} {opts : CompositionOptions} {bound : Int64} {enc : Encoding}
  {m : Marking}

/-- A marking holds what a hazard needs when it has what one of its transitions
takes. -/
theorem matches_hazard_of_covers
    {name : Text} {g : GlobalTransition} {u : Hazard} (h : enc.Abstracts d opts bound)
    (hmem : (name, g) ∈ enc.globals) (hu : u ∈ enc.hazards)
    (hkey : u.marking.key = g.needs.marking.key) (hcover : Covers m g) :
    (Pattern.atLeast u.marking).matches m = true := by
  refine Pattern.atLeast_matches_iff.mpr fun s _ => ?_
  rw [(h.filed hu).value_marking h.wellFormed (fun e he => h.arises he) (h.arises hmem) hkey]
  exact hcover s

/-- The firing that first occupies a forbidden state starts from a marking that
covers a hazard, unless agents join there. -/
theorem exists_covered_of_first_occupation
    {name : Text} {next : Marking} (h : enc.Abstracts d opts bound)
    (hinitial : ∀ st ∈ d.agent.states, st.name = d.agent.initial → st.weight ≠ 0)
    (hm : enc.system.Reachable m) (hfire : enc.system.fireNamed? name m = some next)
    (hfree : ¬Occupied d m) (hoccupied : Occupied d next) :
    ∃ u ∈ enc.hazards, (Pattern.atLeast u.marking).matches m = true := by
  obtain ⟨st, hst, hweight, ⟨-, hjoins⟩ | ⟨g, hmem, hafter, hcover⟩⟩ :=
    first_occupation_cases h hm hfire hfree hoccupied
  · exact absurd hweight (hinitial st hst hjoins)
  · have hforbidden : populatesForbidden d g = true :=
      (populatesForbidden_iff h.wellFormed).mpr ⟨st, hst, hweight, hafter⟩
    have hfiled : ∃ u ∈ enc.hazards, u.marking.key = g.needs.marking.key := by
      rw [h.encodes.hazards_eq, ← h.encodes.globals_eq]
      exact exists_hazard hmem hforbidden
    obtain ⟨u, hu, hkey⟩ := hfiled
    exact ⟨u, hu, matches_hazard_of_covers h hmem hu hkey hcover⟩

/-- From a reachable marking that covers a hazard a forbidden state can be
occupied. -/
theorem exists_occupied_of_covered
    {u : Hazard} (h : enc.Abstracts d opts bound) (hu : u ∈ enc.hazards)
    (hm : enc.system.Reachable m)
    (hmatches : (Pattern.atLeast u.marking).matches m = true) :
    ∃ next, enc.system.Reachable next ∧ Occupied d next := by
  obtain ⟨c, -, -, htally⟩ := exists_population h hm
  have hcovers : ∀ n, n ≠ reservedName → u.marking.value n ≤ m.value n := by
    intro n _
    by_cases hn : n ∈ u.marking.domain
    · exact Pattern.atLeast_matches_iff.mp hmatches n hn
    · rw [Marking.value_of_not_mem_domain hn]
      exact htally.nonneg n
  obtain ⟨t, ht⟩ := List.exists_mem_of_ne_nil _ (h.filed hu).nonempty
  obtain ⟨next, hfire, hoccupied⟩ := exists_occupying_firing h hu hm hcovers ht
  obtain ⟨tr, htr, -, htrfire⟩ := CounterSystem.exists_transition_of_fireNamed? hfire
  exact ⟨next, hm.fire htr htrfire, hoccupied⟩

/-- Where agents do not join in a forbidden state, such a state can be occupied
exactly when a reachable marking covers a hazard. -/
theorem occupied_iff_covers_hazard
    {text : Text} (hread : Description.read text = .ok d)
    (hinitial : ∀ st ∈ d.agent.states, st.name = d.agent.initial → st.weight ≠ 0)
    (opts : CompositionOptions) (hbound : 0 ≤ bound) (name : Text) :
    ∃ enc, encode d (compose d opts).transitions ⟨bound, name⟩ = .ok enc ∧
      ((∃ m, enc.system.Reachable m ∧ Occupied d m) ↔
        ∃ m, enc.system.Reachable m ∧
          ∃ u ∈ enc.hazards, (Pattern.atLeast u.marking).matches m = true) := by
  obtain ⟨enc, hencode, h⟩ := exists_abstracts hread opts hbound name
  refine ⟨enc, hencode, ?_⟩
  constructor
  · rintro ⟨final, hfinal, hoccupied⟩
    have hstart := not_occupied_of_start h.wellFormed (tallies_initial h)
    obtain ⟨names, hrun⟩ := hfinal.exists_run h.encodes.transitionNames_nodup
    obtain ⟨earlier, t, later, m, next, -, hbefore, hfire, hfree, hnext⟩ :=
      CounterSystem.exists_first_firing hstart hrun hoccupied
    have hm : enc.system.Reachable m := CounterSystem.Reachable.initial.run hbefore
    exact ⟨m, hm, exists_covered_of_first_occupation h hinitial hm hfire hfree hnext⟩
  · rintro ⟨m, hm, u, hu, hmatches⟩
    exact exists_occupied_of_covered h hu hm hmatches

theorem occupied_iff_covers_hazard_relay :
    ∃ d enc, Description.read (relayText "idle") = .ok d ∧
      (∀ st ∈ d.agent.states, st.name = d.agent.initial → st.weight ≠ 0) ∧
      (0 : Int64) ≤ 2 ∧
      encode d (compose d ⟨1, false⟩).transitions ⟨2, []⟩ = .ok enc ∧
      ((∃ m, enc.system.Reachable m ∧ Occupied d m) ↔
        ∃ m, enc.system.Reachable m ∧
          ∃ u ∈ enc.hazards, (Pattern.atLeast u.marking).matches m = true) ∧
      ∃ m, enc.system.Reachable m ∧ Occupied d m := by
  obtain ⟨d, hread, hchecked⟩ := Description.exists_eq_ok_of_any
    (x := Description.read (relayText "idle"))
    (p := fun d =>
      (d.agent.states.all fun st => st.name != d.agent.initial || st.weight != 0) &&
        (encode d (compose d ⟨1, false⟩).transitions ⟨2, []⟩).toOption.any fun enc =>
          occupiesUnnoticed d enc ["spawn", "spawn", "t1", "t2"]) (by decide +kernel)
  simp only [Bool.and_eq_true, List.all_eq_true, Bool.or_eq_true, bne_iff_ne] at hchecked
  obtain ⟨hweights, hunnoticed⟩ := hchecked
  have hinitial : ∀ st ∈ d.agent.states, st.name = d.agent.initial → st.weight ≠ 0 := by
    intro st hst hname
    exact (hweights st hst).resolve_left (fun hne => hne hname)
  obtain ⟨enc, hencode, hiff⟩ :=
    occupied_iff_covers_hazard hread hinitial ⟨1, false⟩ (by decide : (0 : Int64) ≤ 2) []
  simp only [hencode, Except.toOption, Option.any_some] at hunnoticed
  obtain ⟨-, m, hrun, hoccupied⟩ := hazardFree_of_occupiesUnnoticed hunnoticed
  exact ⟨d, enc, hread, hinitial, by decide, hencode, hiff,
    m, CounterSystem.Reachable.initial.run hrun, hoccupied⟩

end Population
