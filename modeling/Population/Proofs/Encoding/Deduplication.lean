import Population.Proofs.Composition.Deduplication
import Population.Proofs.Encoding.Hazards

/-!
# Deduplication changes no behaviour

What an encoding reaches and what it files as hazards depends on which global
transitions arise, up to the order of their participants.  Deduplication drops
transitions that are equivalent to others, so the system encoded from what is
left reaches the same markings, and its hazards show the same markings.
-/

namespace Population

open Encoding

variable {d : Description} {opts : CompositionOptions} {bound : Int64} {enc : Encoding}

/-! ## Hazards -/

/-- The marking of a before side is determined by how often states occur in it. -/
theorem needs_marking_eq
    {g h : GlobalTransition} (hg : g.Slim) (hh : h.Slim)
    (hcount : ∀ s, g.before.count s = h.before.count s) :
    g.needs.marking = h.needs.marking := by
  have hdomain : ∀ {f : GlobalTransition} {n : Text},
      n ∈ f.needs.marking.domain ↔ 0 < f.before.count n := by
    intro f n
    rw [List.count_pos_iff]
    exact Marking.mem_domain_ofList.trans Weights.mem_states_of
  apply Marking.ext_of_domain
  · intro n
    rw [hdomain, hdomain, hcount]
  · intro n
    rw [Marking.get_eq_iff_value_eq, value_needs hg, value_needs hh, hcount]

namespace Encoding.Abstracts

theorem hazard_marking_eq
    (h : enc.Abstracts d opts bound) {u : Hazard} (hu : u ∈ enc.hazards) {g : GlobalTransition}
    (hg : Arises d opts.maxConcurrency g) (hkey : u.marking.key = g.needs.marking.key) :
    u.marking = g.needs.marking := by
  have hd := h.wellFormed
  have hfiled := h.filed hu
  have hvalue := hfiled.value_marking hd (fun e he => h.arises he) hg hkey
  obtain ⟨e, he, hweights⟩ := hfiled.origin
  have hmarking : u.marking = e.2.needs.marking := by rw [Hazard.marking, hweights]
  have hslim := (h.arises he).slim hd
  rw [hmarking]
  refine needs_marking_eq hslim (hg.slim hd) fun s => ?_
  have hcount := hvalue s
  rw [hmarking, value_needs hslim] at hcount
  exact_mod_cast hcount

/-- The hazards show the before sides of the synchronizations that populate a
forbidden state. -/
theorem exists_hazard_iff (h : enc.Abstracts d opts bound) {m : Marking} :
    (∃ u ∈ enc.hazards, u.marking = m) ↔
      ∃ g, Arises d opts.maxConcurrency g ∧ populatesForbidden d g = true ∧
        g.needs.marking = m := by
  have hd := h.wellFormed
  constructor
  · rintro ⟨u, hu, rfl⟩
    have hfiled := h.filed hu
    obtain ⟨name, hname⟩ := List.exists_mem_of_ne_nil _ hfiled.nonempty
    obtain ⟨g, hmem, hforbidden, hkey⟩ := hfiled.listed name hname
    have hg := h.arises hmem
    exact ⟨g, hg, hforbidden, (h.hazard_marking_eq hu hg hkey.symm).symm⟩
  · rintro ⟨g, hg, hforbidden, rfl⟩
    obtain ⟨listed, hmem, hequiv⟩ := hg.exists_equivalent hd opts
    have hlisted := arises_of_mem_compose hmem
    obtain ⟨hbefore, -⟩ := hlisted.sides_perm hg hequiv
    have hforbidden' : populatesForbidden d listed = true := by
      obtain ⟨st, hst, hweight, hafter⟩ := (populatesForbidden_iff hd).mp hforbidden
      refine (populatesForbidden_iff hd).mpr ⟨st, hst, hweight, ?_⟩
      rw [hlisted.agentAfter_eq]
      rw [hg.agentAfter_eq] at hafter
      exact ((hequiv.moves.map _).mem_iff).mpr hafter
    obtain ⟨name, hname⟩ := exists_mem_nameGlobals hmem
    obtain ⟨u, hu, hkey⟩ := exists_hazard hname hforbidden'
    rw [← h.encodes.hazards_eq] at hu
    refine ⟨u, hu, (h.hazard_marking_eq hu hlisted hkey).trans ?_⟩
    exact needs_marking_eq (hlisted.slim hd) (hg.slim hd) fun s => hbefore.count_eq s

end Encoding.Abstracts

/-! ## Reachable markings -/

/-- Encodings of one description under one bound and one concurrency limit reach
the same markings. -/
theorem reachable_of_reachable
    {opts' : CompositionOptions} {enc' : Encoding} (h : enc.Abstracts d opts bound)
    (h' : enc'.Abstracts d opts' bound) (hlimit : opts.maxConcurrency = opts'.maxConcurrency)
    {m : Marking} (hm : enc.system.Reachable m) : enc'.system.Reachable m := by
  obtain ⟨c, hc, -, htally⟩ := exists_population h hm
  rw [hlimit] at hc
  obtain ⟨-, m', hm', htally'⟩ := exists_marking h' hc
  rw [htally.unique htally']
  exact hm'

/-! ## Deduplication -/

/-- What deduplication does to a composition and to its encodings. -/
structure DeduplicatedExactly (d : Description) (limit : Int) : Prop where
  /-- Of each class of equivalent transitions the first is kept. -/
  transitions_eq : (compose d ⟨limit, true⟩).transitions =
    (compose d ⟨limit, false⟩).transitions.eraseDupsBy fun g h => decide (g.Equivalent h)
  sublist : (compose d ⟨limit, true⟩).transitions.Sublist (compose d ⟨limit, false⟩).transitions
  distinct : (compose d ⟨limit, true⟩).transitions.Pairwise fun g h => ¬g.Equivalent h
  represented : ∀ g ∈ (compose d ⟨limit, false⟩).transitions,
    ∃ h ∈ (compose d ⟨limit, true⟩).transitions, h.Equivalent g
  /-- Of an environment transition's diagnostics the first about each expansion is
  kept. -/
  unmatched : ∃ entries : EnvironmentTransition → List Unmatched,
    (∀ et, ∀ u ∈ entries et, u.environment = et) ∧
    (compose d ⟨limit, false⟩).unmatched = d.environment.transitions.flatMap entries ∧
    (compose d ⟨limit, true⟩).unmatched = d.environment.transitions.flatMap fun et =>
      (entries et).eraseDupsBy fun u v => decide (u.expansion = v.expansion)
  /-- Both encodings reach the same markings, and their hazards show the same. -/
  encoded : ∀ (bound : Int64) (name : Text), 0 ≤ bound →
    ∃ all kept, encode d (compose d ⟨limit, false⟩).transitions ⟨bound, name⟩ = .ok all ∧
      encode d (compose d ⟨limit, true⟩).transitions ⟨bound, name⟩ = .ok kept ∧
      (∀ m, all.system.Reachable m ↔ kept.system.Reachable m) ∧
      ∀ m, (∃ u ∈ all.hazards, u.marking = m) ↔ ∃ u ∈ kept.hazards, u.marking = m
  /-- Under a negative bound there is neither. -/
  refused : ∀ (bound : Int64) (name : Text), bound < 0 → ∀ deduplicate : Bool,
    encode d (compose d ⟨limit, deduplicate⟩).transitions ⟨bound, name⟩ =
      .error (.negativeBound bound)

/-- Deduplication removes the copies and changes no behaviour. -/
theorem compose_deduplicated
    {text : Text} (hread : Description.read text = .ok d) (limit : Int) :
    DeduplicatedExactly d limit where
  transitions_eq := transitions_deduplicated (Description.read_wellFormed hread) limit
  sublist := by
    rw [transitions_eq_firstsBy (Description.read_wellFormed hread) limit]
    exact firstsBy_sublist [] _
  distinct := transitions_pairwise (Description.read_wellFormed hread) limit
  represented g hg := by
    have harises : Arises d limit g := arises_of_mem_compose hg
    exact harises.exists_equivalent (Description.read_wellFormed hread) ⟨limit, true⟩
  unmatched := exists_unmatched_deduplicated (Description.read_wellFormed hread) limit
  encoded bound name hbound := by
    obtain ⟨all, hall, h⟩ := exists_abstracts hread ⟨limit, false⟩ hbound name
    obtain ⟨kept, hkept, h'⟩ := exists_abstracts hread ⟨limit, true⟩ hbound name
    refine ⟨all, kept, hall, hkept, ?_, ?_⟩
    · intro m
      exact ⟨reachable_of_reachable h h' rfl, reachable_of_reachable h' h rfl⟩
    · intro m
      rw [h.exists_hazard_iff, h'.exists_hazard_iff]
  refused _ _ hbound _ := if_pos hbound

/-- Two agents rise together; each of the two slots may be taken at either
floor. -/
def risingText : Text :=
  Text.cat
    ["low: 1, mid: 1, top: 0\n",
      "up\n",
      "low,tick,up up,up,mid\n",
      "mid,tick,up up,up,top\n",
      "low\n",
      "top\n",
      "s0\n",
      "tick\n",
      "s0\n",
      "s0,tick,up up,s0\n"]

theorem compose_deduplicated_rising :
    ∃ d, Description.read risingText = .ok d ∧
      (compose d ⟨2, false⟩).transitions.length = 4 ∧
      (compose d ⟨2, true⟩).transitions.length = 3 ∧
      (compose d ⟨2, false⟩).unmatched.length = 3 ∧
      (compose d ⟨2, true⟩).unmatched.length = 2 ∧ DeduplicatedExactly d 2 := by
  obtain ⟨d, hread, hlengths⟩ := Description.exists_eq_ok_of_any
    (x := Description.read risingText)
    (p := fun d => decide ((compose d ⟨2, false⟩).transitions.length = 4 ∧
      (compose d ⟨2, true⟩).transitions.length = 3 ∧
      (compose d ⟨2, false⟩).unmatched.length = 3 ∧
      (compose d ⟨2, true⟩).unmatched.length = 2)) (by decide +kernel)
  obtain ⟨hall, hkept, hallUnmatched, hkeptUnmatched⟩ := of_decide_eq_true hlengths
  exact ⟨d, hread, hall, hkept, hallUnmatched, hkeptUnmatched, compose_deduplicated hread 2⟩

end Population
