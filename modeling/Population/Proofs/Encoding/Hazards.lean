import Population.Proofs.Encoding.Abstraction
import Population.Proofs.Marking.Key
import Population.Proofs.StateSpace.Pattern
import Population.Proofs.StateSpace.Search

/-!
# Hazards are what they claim to be

A hazard files global transitions that populate a forbidden state under their
common before side.  Every such transition is filed, and whatever is filed can
fire from every marking that agrees with the hazard on all counters but the
number of active agents.  So a hazard that the explicit oracle reports as
reachable comes with a firing sequence to a marking from which each of its
transitions populates a forbidden state.
-/

namespace Population

open Encoding

variable {d : Description} {named : List (Text × GlobalTransition)} {bound : Int64}

/-! ## Filing -/

namespace Encoding

/-- What is known about a hazard of named global transitions. -/
structure Filed
    (d : Description) (named : List (Text × GlobalTransition)) (h : Hazard) : Prop where
  nonempty : h.transitions ≠ []
  origin : ∃ e ∈ named, h.weights = e.2.needs
  listed : ∀ name ∈ h.transitions, ∃ g, (name, g) ∈ named ∧
    populatesForbidden d g = true ∧ g.needs.marking.key = h.marking.key

/-- Files one global transition when it populates a forbidden state. -/
def file (d : Description) (hs : List Hazard) (e : Text × GlobalTransition) : List Hazard :=
  if populatesForbidden d e.2 then addHazard e.1 e.2.needs hs else hs

theorem hazardsOf_eq (d : Description) (named : List (Text × GlobalTransition)) :
    hazardsOf d named = named.foldl (file d) [] := rfl

theorem filed_addHazard
    {e : Text × GlobalTransition} {hs : List Hazard} (he : e ∈ named)
    (hforbidden : populatesForbidden d e.2 = true) (hhs : ∀ h ∈ hs, Filed d named h) :
    ∀ h ∈ addHazard e.1 e.2.needs hs, Filed d named h := by
  induction hs with
  | nil =>
      intro h hmem
      rw [List.mem_singleton.mp hmem]
      refine ⟨List.cons_ne_nil _ _, ⟨e, he, rfl⟩, ?_⟩
      intro name hname
      rw [List.mem_singleton.mp hname]
      exact ⟨e.2, he, hforbidden, rfl⟩
  | cons first rest ih =>
      obtain ⟨hfirst, hrest⟩ := List.forall_mem_cons.mp hhs
      simp only [addHazard]
      split
      next hkey =>
        refine List.forall_mem_cons.mpr ⟨⟨?_, hfirst.origin, ?_⟩, hrest⟩
        · simp
        · intro name hname
          rcases List.mem_append.mp hname with hname | hname
          · exact hfirst.listed name hname
          · rw [List.mem_singleton.mp hname]
            exact ⟨e.2, he, hforbidden, hkey.symm⟩
      next => exact List.forall_mem_cons.mpr ⟨hfirst, ih hrest⟩

theorem filed_foldl_file
    {rest : List (Text × GlobalTransition)} {hs : List Hazard}
    (hrest : ∀ e ∈ rest, e ∈ named) (hhs : ∀ h ∈ hs, Filed d named h) :
    ∀ h ∈ rest.foldl (file d) hs, Filed d named h := by
  induction rest generalizing hs with
  | nil => exact hhs
  | cons e others ih =>
      obtain ⟨he, hothers⟩ := List.forall_mem_cons.mp hrest
      apply ih hothers
      unfold file
      split
      next hforbidden => exact filed_addHazard he hforbidden hhs
      next => exact hhs

theorem filed_of_mem_hazardsOf {h : Hazard} (hmem : h ∈ hazardsOf d named) :
    Filed d named h :=
  filed_foldl_file (fun _ he => he) (by simp) h hmem

theorem exists_mem_addHazard (name : Text) (needs : Weights) (hs : List Hazard) :
    ∃ h ∈ addHazard name needs hs, h.marking.key = needs.marking.key := by
  induction hs with
  | nil => exact ⟨⟨needs, [name]⟩, List.mem_singleton_self _, rfl⟩
  | cons first rest ih =>
      simp only [addHazard]
      split
      next hkey => exact ⟨_, List.mem_cons_self, hkey⟩
      next =>
        obtain ⟨h, hmem, hkey⟩ := ih
        exact ⟨h, List.mem_cons_of_mem first hmem, hkey⟩

/-- Filing keeps the before sides that are there. -/
theorem weights_addHazard
    (name : Text) (needs : Weights) {hs : List Hazard} {h : Hazard} (hmem : h ∈ hs) :
    ∃ h' ∈ addHazard name needs hs, h'.weights = h.weights := by
  induction hs with
  | nil => simp at hmem
  | cons first rest ih =>
      simp only [addHazard]
      rcases List.mem_cons.mp hmem with rfl | hmem
      · split
        · exact ⟨_, List.mem_cons_self, rfl⟩
        · exact ⟨h, List.mem_cons_self, rfl⟩
      · split
        · exact ⟨h, List.mem_cons_of_mem _ hmem, rfl⟩
        · obtain ⟨h', hmem', hweights⟩ := ih hmem
          exact ⟨h', List.mem_cons_of_mem _ hmem', hweights⟩

theorem weights_foldl_file
    (d : Description) (rest : List (Text × GlobalTransition)) {hs : List Hazard} {h : Hazard}
    (hmem : h ∈ hs) :
    ∃ h' ∈ rest.foldl (file d) hs, h'.weights = h.weights := by
  induction rest generalizing hs h with
  | nil => exact ⟨h, hmem, rfl⟩
  | cons e others ih =>
      rw [List.foldl_cons]
      by_cases hforbidden : populatesForbidden d e.2 = true
      · obtain ⟨h₁, hmem₁, hweights₁⟩ :=
          weights_addHazard e.1 e.2.needs hmem
        rw [file, if_pos hforbidden]
        obtain ⟨h₂, hmem₂, hweights₂⟩ := ih hmem₁
        exact ⟨h₂, hmem₂, hweights₂.trans hweights₁⟩
      · rw [file, if_neg hforbidden]
        exact ih hmem

/-- Every transition that populates a forbidden state is filed. -/
theorem exists_hazard
    {e : Text × GlobalTransition} (he : e ∈ named)
    (hforbidden : populatesForbidden d e.2 = true) :
    ∃ h ∈ hazardsOf d named, h.marking.key = e.2.needs.marking.key := by
  obtain ⟨earlier, later, rfl⟩ := List.append_of_mem he
  rw [hazardsOf_eq, List.foldl_append, List.foldl_cons]
  obtain ⟨h, hmem, hkey⟩ :=
    exists_mem_addHazard e.1 e.2.needs (earlier.foldl (file d) [])
  have hfiled : h ∈ file d (earlier.foldl (file d) []) e := by
    rw [file, if_pos hforbidden]
    exact hmem
  obtain ⟨h', hmem', hweights⟩ := weights_foldl_file d later hfiled
  refine ⟨h', hmem', ?_⟩
  rw [← hkey, Hazard.marking, Hazard.marking, hweights]

/-! ## Before sides as markings -/

theorem value_needs {g : GlobalTransition} (hg : g.Slim) (s : Text) :
    g.needs.marking.value s = g.before.count s := by
  have hnodup : g.needs.states.Nodup := Weights.states_of_nodup _ _
  rw [Marking.value, Weights.get_marking hnodup,
    GlobalTransition.toInt_needs (hg.count_before_lt s)]

theorem needs_valid
    {limit : Int} {g : GlobalTransition} (hd : d.WellFormed) (hg : Arises d limit g) :
    ∀ n ∈ g.needs.marking.domain, Name.isValid n = true := by
  intro n hn
  have hbefore : n ∈ g.before :=
    Weights.mem_states_of.mp (Marking.mem_domain_ofList.mp hn)
  rcases List.mem_cons.mp hbefore with rfl | hagent
  · exact hd.environmentName_valid _ (hg.envBefore_mem hd)
  · exact hd.agentName_valid n (hg.agentBefore_subset hd hagent)

/-- A hazard shows the before side of each transition that has its key. -/
theorem Filed.value_marking
    {limit : Int} {h : Hazard} {g : GlobalTransition} (hd : d.WellFormed)
    (hnamed : ∀ e ∈ named, Arises d limit e.2) (hfiled : Filed d named h)
    (hg : Arises d limit g) (hkey : h.marking.key = g.needs.marking.key) (s : Text) :
    h.marking.value s = g.before.count s := by
  obtain ⟨e, he, hweights⟩ := hfiled.origin
  have hvalid : ∀ n ∈ h.marking.domain, Name.isValid n = true := by
    rw [Hazard.marking, hweights]
    exact needs_valid hd (hnamed e he)
  rw [← value_needs (hg.slim hd), Marking.value,
    Marking.get_eq_of_key_eq hvalid (needs_valid hd hg) hkey, Marking.value]

/-! ## Forbidden states -/

theorem populatesForbidden_iff {g : GlobalTransition} (hd : d.WellFormed) :
    populatesForbidden d g = true ↔
      ∃ st ∈ d.agent.states, st.weight = 0 ∧ st.name ∈ g.agentAfter := by
  simp only [populatesForbidden, List.any_eq_true, Option.any_eq_true, Bool.not_eq_true',
    AgentState.isSafe, bne_eq_false_iff_eq]
  constructor
  · rintro ⟨s, hs, st, hst, hweight⟩
    have hname : st.name = s := by simpa using List.find?_some hst
    exact ⟨st, List.mem_of_find?_eq_some hst, hweight, hname ▸ hs⟩
  · rintro ⟨st, hst, hweight, hafter⟩
    exact ⟨st.name, hafter, st, find?_name_eq_some hd.agentStates_nodup hst, hweight⟩

end Encoding

/-- Some agent stands in a forbidden state. -/
def Occupied (d : Description) (m : Marking) : Prop :=
  ∃ st ∈ d.agent.states, st.weight = 0 ∧ 0 < m.value st.name

/-- Firing a transition that populates a forbidden state does so. -/
theorem occupied_of_populatesForbidden
    {g : GlobalTransition} {m : Marking} {name : Text} (hd : d.WellFormed) (hg : g.Slim)
    (hforbidden : populatesForbidden d g = true) (hcover : Covers m g)
    (hexact : (guarded name g).updates.Exact m) :
    Occupied d ((guarded name g).updates.apply m) := by
  obtain ⟨st, hst, hweight, hafter⟩ := (populatesForbidden_iff hd).mp hforbidden
  have hpositive : 0 < g.after.count st.name :=
    List.count_pos_iff.mpr (List.mem_cons_of_mem _ hafter)
  have hle := hcover st.name
  refine ⟨st, hst, hweight, ?_⟩
  rw [value_apply_guarded hg.count_before_lt hg.count_after_lt hexact]
  omega

section Encoded

variable {opts : CompositionOptions} {enc : Encoding} {u : Hazard} {m : Marking}

theorem Encoding.Abstracts.filed (h : enc.Abstracts d opts bound) (hu : u ∈ enc.hazards) :
    Filed d enc.globals u := by
  rw [h.encodes.hazards_eq] at hu
  rw [h.encodes.globals_eq]
  exact filed_of_mem_hazardsOf hu

/-- From a reachable marking that covers a hazard each of its transitions fires
and populates a forbidden state. -/
theorem exists_occupying_firing
    (h : enc.Abstracts d opts bound) (hu : u ∈ enc.hazards) (hm : enc.system.Reachable m)
    (hcovers : ∀ n, n ≠ reservedName → u.marking.value n ≤ m.value n)
    {t : Text} (ht : t ∈ u.transitions) :
    ∃ next, enc.system.fireNamed? t m = some next ∧ Occupied d next := by
  have hd := h.wellFormed
  have hfiled := h.filed hu
  obtain ⟨g, hmem, hforbidden, hkey⟩ := hfiled.listed t ht
  have hg := h.arises hmem
  obtain ⟨c, -, hlawful, htally⟩ := exists_population h hm
  have hcover : Covers m g := by
    intro s
    by_cases hs : s = reservedName
    · have hnone : g.before.count s = 0 :=
        List.count_eq_zero.mpr fun hmem => hg.before_ne_reserved hd s hmem hs
      rw [hnone]
      exact htally.nonneg s
    · rw [← hfiled.value_marking hd (fun e he => h.arises he) hg hkey.symm s]
      exact hcovers s hs
  have hguard := (guarded_holds_iff (hg.slim hd).count_before_lt htally.nonneg t).mpr hcover
  have hlisted : guarded t g ∈ enc.system.transitions :=
    h.mem_transitions_iff.mpr (.inr (.inr ⟨t, g, hmem, rfl⟩))
  -- The marking is a tally, so the guard alone decides whether the transition fires.
  obtain ⟨hexact, c', -, htally'⟩ :=
    htally.exists_step hd hlawful (h.encodes.transitions_eq ▸ hlisted) hguard
  have hfire := CounterSystem.fireNamed?_of_mem h.encodes.transitionNames_nodup hlisted m
  exact ⟨(guarded t g).updates.apply m, hfire.trans (htally'.fire? hguard),
    occupied_of_populatesForbidden hd (hg.slim hd) hforbidden hcover hexact⟩

end Encoded

/-! ## Findings -/

/-- A hazard that is reported as reachable is reached by the witness, and each
of its transitions then populates a forbidden state. -/
theorem explicit_finding_sound
    {text : Text} (hread : Description.read text = .ok d) (opts : CompositionOptions)
    (hbound : 0 ≤ bound) (name : Text) :
    ∃ enc, encode d (compose d opts).transitions ⟨bound, name⟩ = .ok enc ∧
      ∀ u ∈ enc.hazards, ∀ (maxStates : Int) (allowance : Allowance) (path : Text) (a : Answer),
        Explicit.ask maxStates allowance ⟨some enc.system, path, u.marking⟩ = ⟨some a, none⟩ →
        a.reachable = true →
        ∃ m, enc.system.run? a.witness enc.system.initial = some m ∧
          (∀ n, n ≠ reservedName → m.get n = u.marking.get n) ∧
          u.transitions ≠ [] ∧
          ∀ t ∈ u.transitions, ∃ next,
            enc.system.fireNamed? t m = some next ∧ Occupied d next := by
  obtain ⟨enc, hencode, h⟩ := exists_abstracts hread opts hbound name
  refine ⟨enc, hencode, ?_⟩
  intro u hu maxStates allowance path a hask hreachable
  obtain ⟨m, hrun, hmatches⟩ :=
    Explicit.exists_run?_of_ask h.encodes.transitionNames_nodup hask hreachable
  have hm : enc.system.Reachable m := CounterSystem.Reachable.initial.run hrun
  have hagree : ∀ n, n ≠ reservedName → m.get n = u.marking.get n := by
    intro n hn
    exact Pattern.exactly_matches_iff.mp hmatches n (by simpa using hn)
  refine ⟨m, hrun, hagree, (h.filed hu).nonempty, ?_⟩
  intro t ht
  refine exists_occupying_firing h hu hm ?_ ht
  intro n hn
  rw [Marking.value, Marking.value, hagree n hn]

theorem explicit_finding_sound_relay :
    ∃ d enc u a, Description.read (relayText "done") = .ok d ∧ (0 : Int64) ≤ 2 ∧
      encode d (compose d ⟨1, false⟩).transitions ⟨2, []⟩ = .ok enc ∧ u ∈ enc.hazards ∧
      Explicit.ask 100 .unlimited ⟨some enc.system, [], u.marking⟩ = ⟨some a, none⟩ ∧
      a.reachable = true ∧
      ∃ m, enc.system.run? a.witness enc.system.initial = some m ∧
        (∀ n, n ≠ reservedName → m.get n = u.marking.get n) ∧
        u.transitions ≠ [] ∧
        ∀ t ∈ u.transitions, ∃ next,
          enc.system.fireNamed? t m = some next ∧ Occupied d next := by
  obtain ⟨d, hread, hfound⟩ := Description.exists_eq_ok_of_any
    (x := Description.read (relayText "done"))
    (p := fun d => (encode d (compose d ⟨1, false⟩).transitions ⟨2, []⟩).toOption.any fun enc =>
      enc.hazards.any fun u =>
        let reply := Explicit.ask 100 .unlimited ⟨some enc.system, [], u.marking⟩
        reply.error.isNone && reply.answer.any (·.reachable)) (by decide +kernel)
  obtain ⟨enc, hencode, hsound⟩ :=
    explicit_finding_sound hread ⟨1, false⟩ (by decide : (0 : Int64) ≤ 2) []
  simp only [hencode, Except.toOption, Option.any_some, List.any_eq_true,
    Bool.and_eq_true, Option.isNone_iff_eq_none, Option.any_eq_true] at hfound
  obtain ⟨u, hu, herror, a, hanswer, hreachable⟩ := hfound
  have hask : Explicit.ask 100 .unlimited ⟨some enc.system, [], u.marking⟩ =
      ⟨some a, none⟩ := by
    rw [← herror, ← hanswer]
  exact ⟨d, enc, u, a, hread, by decide, hencode, hu, hask, hreachable,
    hsound u hu 100 .unlimited [] a hask hreachable⟩

end Population
