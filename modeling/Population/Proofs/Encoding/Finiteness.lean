import Population.Proofs.CounterSystem.Naming
import Population.Proofs.Encoding.Abstraction
import Population.Proofs.StateSpace.Limit
import Mathlib.Data.Fintype.BigOperators
import Mathlib.Data.Set.Card

/-!
# Finite state spaces

The environment is in one of its states, and no agent state holds more agents than
the bound allows.  These numbers determine a reachable marking: the number of
active agents is their sum.  So an encoding has no more states than there are ways
to choose them, and an exploration with a larger limit sees the whole graph.
-/

namespace Population

open Encoding

variable {d : Description} {bound : Int64}

/-- The state that the environment is in, and how many agents each agent state
holds. -/
abbrev Placement (d : Description) :=
  Text × (Fin d.agent.states.length → Nat)

/-- The places of the environment and of up to `bound` agents in each agent state. -/
def placements (d : Description) (bound : Int64) : Finset (Placement d) :=
  d.environment.states.toFinset ×ˢ
    Fintype.piFinset fun _ => Finset.range (bound.toInt.toNat + 1)

/-- The placement that a marking shows. -/
def placementOf (d : Description) (m : Marking) : Placement d :=
  ((d.environment.states.find? fun s => m.value s == 1).getD [],
    fun i => (m.value (d.agent.states.get i).name).toNat)

theorem card_placements (hd : d.WellFormed) :
    (placements d bound).card =
      d.environment.states.length * (bound.toInt.toNat + 1) ^ d.agent.states.length := by
  rw [placements, Finset.card_product, Fintype.card_piFinset_const, Finset.card_range,
    List.toFinset_card_of_nodup hd.environmentStates_nodup]

/-! ## Reachable markings are determined by their placement -/

section Placement

variable {m : Marking} {c : Configuration}

theorem environment_placementOf
    (hc : c.Lawful d bound) (h : Represents d m c) : (placementOf d m).1 = c.environment := by
  have hcurrent : m.value c.environment = 1 := by
    rw [h.environment _ hc.environment_mem, if_pos rfl]
  have hsome : (d.environment.states.find? fun s => m.value s == 1).isSome = true :=
    List.find?_isSome.mpr ⟨c.environment, hc.environment_mem, by simp [hcurrent]⟩
  obtain ⟨s, hs⟩ := Option.isSome_iff_exists.mp hsome
  have hvalue : m.value s = 1 := by simpa using List.find?_some hs
  rw [placementOf, hs, Option.getD_some]
  by_contra hne
  rw [h.environment s (List.mem_of_find?_eq_some hs), if_neg hne] at hvalue
  exact absurd hvalue (by decide)

theorem agents_placementOf (h : Represents d m c) (i : Fin d.agent.states.length) :
    (placementOf d m).2 i = c.agents.count (d.agent.states.get i).name := by
  have hmem : (d.agent.states.get i).name ∈ d.agent.stateNames :=
    List.mem_map.mpr ⟨_, List.get_mem _ i, rfl⟩
  simp only [placementOf, h.agent _ hmem, Int.toNat_natCast]

theorem placementOf_mem (hc : c.Lawful d bound) (h : Represents d m c) :
    placementOf d m ∈ placements d bound := by
  refine Finset.mem_product.mpr ⟨?_, ?_⟩
  · rw [environment_placementOf hc h]
    exact List.mem_toFinset.mpr hc.environment_mem
  · refine Fintype.mem_piFinset.mpr fun i => Finset.mem_range.mpr ?_
    have hle : c.agents.count (d.agent.states.get i).name ≤ c.agents.length :=
      List.count_le_length
    have hlength := hc.length_le
    rw [agents_placementOf h]
    omega

theorem value_agentState_eq
    {m' : Marking} {c' : Configuration} (h : Represents d m c) (h' : Represents d m' c')
    (heq : placementOf d m = placementOf d m') :
    ∀ s ∈ d.agent.stateNames, m.value s = m'.value s := by
  intro s hs
  obtain ⟨st, hst, rfl⟩ := List.mem_map.mp hs
  obtain ⟨i, rfl⟩ := List.mem_iff_get.mp hst
  rw [h.agent _ hs, h'.agent _ hs, ← agents_placementOf h, ← agents_placementOf h', heq]

/-- Populations with one placement are tallied by one marking. -/
theorem eq_of_placementOf_eq
    {m' : Marking} {c' : Configuration} (hd : d.WellFormed) (hc : c.Lawful d bound)
    (hc' : c'.Lawful d bound) (h : Tallies d m c) (h' : Tallies d m' c')
    (heq : placementOf d m = placementOf d m') : m = m' := by
  have hm := h.represents hd hc
  have hm' := h'.represents hd hc'
  have hagents := value_agentState_eq hm hm' heq
  have henvironment : c.environment = c'.environment := by
    rw [← environment_placementOf hc hm, ← environment_placementOf hc' hm', heq]
  apply Marking.ext_of_domain
  · intro n
    rw [h.mem_domain, h'.mem_domain]
  · intro n
    rw [Marking.get_eq_iff_value_eq]
    by_cases hagent : n ∈ d.agent.stateNames
    · exact hagents n hagent
    by_cases hstate : n ∈ d.environment.states
    · rw [hm.environment n hstate, hm'.environment n hstate, henvironment]
    by_cases hreserved : n = reservedName
    -- The number of active agents is the sum over the agent states.
    · rw [hreserved, ← (h.balanced hd hc).agent_sum, ← (h'.balanced hd hc').agent_sum,
        List.map_congr_left hagents]
    · have hundeclared : n ∉ (counters d).map (·.name) := by
        rw [map_name_counters]
        simp [hagent, hstate, hreserved]
      rw [Marking.value_of_not_mem_domain fun hmem => hundeclared ((h.mem_domain n).mp hmem),
        Marking.value_of_not_mem_domain fun hmem => hundeclared ((h'.mem_domain n).mp hmem)]

end Placement

/-! ## Counting -/

theorem encard_reachable_le
    {opts : CompositionOptions} {enc : Encoding} (h : enc.Abstracts d opts bound) :
    {m | enc.system.Reachable m}.encard ≤ (placements d bound).card := by
  have hd := h.wellFormed
  have hmaps : Set.MapsTo (placementOf d) {m | enc.system.Reachable m} (placements d bound) := by
    intro m hm
    obtain ⟨c, -, hc, htally⟩ := exists_population h hm
    exact placementOf_mem hc (htally.represents hd hc)
  have hinj : Set.InjOn (placementOf d) {m | enc.system.Reachable m} := by
    intro m hm m' hm' heq
    obtain ⟨c, -, hc, htally⟩ := exists_population h hm
    obtain ⟨c', -, hc', htally'⟩ := exists_population h hm'
    exact eq_of_placementOf_eq hd hc hc' htally htally' heq
  have hle := Set.encard_le_encard_of_injOn hmaps hinj
  rwa [Set.encard_coe_eq_coe_finsetCard] at hle

/-- Where finitely many markings are reachable, no list of states is longer. -/
theorem CounterSystem.atMostStates_of_encard_le
    {sys : CounterSystem} {n : Nat} (h : {m | sys.Reachable m}.encard ≤ n) :
    sys.AtMostStates n := by
  classical
  intro ms hms
  have hnodup : ms.Nodup := by
    refine List.Pairwise.imp ?_ hms.distinct
    rintro a _ hdiffer rfl
    exact Marking.not_agree_of_same_eq_false hdiffer (Marking.Agree.refl a)
  have hsubset : (ms.toFinset : Set Marking) ⊆ {m | sys.Reachable m} := by
    intro m hm
    exact hms.reachable m (List.mem_toFinset.mp hm)
  have hle := (Set.encard_le_encard hsubset).trans h
  rw [Set.encard_coe_eq_coe_finsetCard, List.toFinset_card_of_nodup hnodup] at hle
  exact_mod_cast hle

/-- An exploration whose limit exceeds the number of states is complete. -/
theorem StateSpace.build_complete
    {sys : CounterSystem} {n limit : Nat} (hs : sys.WellNamed) (hn : sys.AtMostStates n)
    (hlimit : n < limit) :
    ∃ s, build sys limit .unlimited = (s, none) ∧ s.complete = true ∧
      ∀ m, sys.Reachable m → ∃! i : Nat, ∃ m', s.markings[i]? = some m' ∧ m'.same m = true := by
  have hpos : 1 ≤ limit := by omega
  obtain ⟨hcharted, hends⟩ := build_spec sys hpos .unlimited
  rcases build_stop hs hpos with ⟨hstop, -⟩ | ⟨-, hmany⟩
  · rw [hstop] at hends
    obtain ⟨hcomplete, hall, -⟩ := hends
    refine ⟨(build sys limit .unlimited).1, ?_, hcomplete, ?_⟩
    · rw [← hstop]
    · intro m hm
      exact hcharted.existsUnique_state hs hall hm
  · exact absurd ⟨n, hlimit, hn⟩ hmany

/-- An encoding with `A` agent states and `S` environment states has at most
`S * (bound + 1) ^ A` states, and an exploration that may see more than these sees
the whole graph. -/
theorem encoding_fully_explored
    {text : Text} (hread : Description.read text = .ok d) (opts : CompositionOptions)
    (hbound : 0 ≤ bound) (name : Text) :
    ∃ enc, encode d (compose d opts).transitions ⟨bound, name⟩ = .ok enc ∧
      ∀ n, n = d.environment.states.length *
          (bound.toInt.toNat + 1) ^ d.agent.states.length →
        {m | enc.system.Reachable m}.encard ≤ n ∧
        ∀ maxStates : Int, n < maxStates →
          ∃ s, StateSpace.build enc.system (stateLimit maxStates) .unlimited = (s, none) ∧
            s.complete = true ∧
            ∀ m, enc.system.Reachable m →
              ∃! i : Nat, ∃ m', s.markings[i]? = some m' ∧ m'.same m = true := by
  obtain ⟨enc, hencode, h⟩ := exists_abstracts hread opts hbound name
  refine ⟨enc, hencode, ?_⟩
  intro n hn
  have hcount := encard_reachable_le h
  rw [card_placements h.wellFormed, ← hn] at hcount
  refine ⟨hcount, ?_⟩
  intro maxStates hmax
  have hs := (CounterSystem.Obtained.encoded hread hencode).wellNamed
  have hlimit : n < stateLimit maxStates := by
    have hpositive : ¬maxStates ≤ 0 := by omega
    rw [stateLimit, if_neg hpositive]
    omega
  exact StateSpace.build_complete hs (CounterSystem.atMostStates_of_encard_le hcount) hlimit

theorem encoding_fully_explored_relay :
    ∃ d enc s, Description.read (relayText "done") = .ok d ∧ (0 : Int64) ≤ 2 ∧
      encode d (compose d ⟨2, true⟩).transitions ⟨2, []⟩ = .ok enc ∧
      54 = d.environment.states.length * ((2 : Int64).toInt.toNat + 1) ^ d.agent.states.length ∧
      (54 : Int) < 55 ∧
      {m | enc.system.Reachable m}.encard ≤ (54 : Nat) ∧
      StateSpace.build enc.system (stateLimit 55) .unlimited = (s, none) ∧
      s.complete = true := by
  obtain ⟨d, hread, hsize⟩ := Description.exists_eq_ok_of_any
    (x := Description.read (relayText "done"))
    (p := fun d => decide (54 = d.environment.states.length *
      ((2 : Int64).toInt.toNat + 1) ^ d.agent.states.length)) (by decide +kernel)
  obtain ⟨enc, hencode, hexplored⟩ :=
    encoding_fully_explored hread ⟨2, true⟩ (by decide : (0 : Int64) ≤ 2) []
  obtain ⟨hcount, hbuild⟩ := hexplored 54 (of_decide_eq_true hsize)
  obtain ⟨s, hs, hcomplete, -⟩ := hbuild 55 (by decide)
  exact ⟨d, enc, s, hread, by decide, hencode, of_decide_eq_true hsize, by decide, hcount, hs,
    hcomplete⟩

end Population
