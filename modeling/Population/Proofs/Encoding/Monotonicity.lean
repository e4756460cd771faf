import Population.Oracle.Basic
import Population.Proofs.Encoding.Deduplication

/-!
# Raising the bounds

A larger population bound lets more agents join, and a larger concurrency limit
lets more agents fill a slot.  Neither takes a step away from a population, so
every population that was reachable stays reachable and every synchronization
that arose still arises.  Although the two encodings number their transitions
differently, what the smaller one reaches and warns of, the larger one reaches
and warns of as well.
-/

namespace Population

/-! ## Slots -/

theorem slotLimit_le_slotLimit {limit limit' : Int} (h : limit ≤ limit') :
    slotLimit limit ≤ slotLimit limit' := by
  unfold slotLimit
  omega

section Slots

variable {limit limit' : Nat} {slots expansion : List Text}

theorem forall₂_fillsSlot_mono
    (hlimit : limit ≤ limit') {blocks : List (List Text)}
    (h : List.Forall₂ (FillsSlot limit) slots blocks) :
    List.Forall₂ (FillsSlot limit') slots blocks := by
  refine h.imp ?_
  rintro action block ⟨n, hpos, hle, rfl⟩
  exact ⟨n, hpos, Nat.le_trans hle hlimit, rfl⟩

theorem Expands.mono (hlimit : limit ≤ limit') (h : Expands limit slots expansion) :
    Expands limit' slots expansion := by
  obtain ⟨blocks, hblocks, hperm⟩ := h
  exact ⟨blocks, forall₂_fillsSlot_mono hlimit hblocks, hperm⟩

end Slots

theorem expand_subset_expand {limit limit' : Int} (hlimit : limit ≤ limit') (slots : List Text) :
    expand slots limit ⊆ expand slots limit' := by
  intro expansion hexpansion
  obtain ⟨blocks, hblocks, rfl⟩ := mem_expand_iff_blocks.mp hexpansion
  have hraised := forall₂_fillsSlot_mono (slotLimit_le_slotLimit hlimit) hblocks
  exact mem_expand_iff_blocks.mpr ⟨blocks, hraised, rfl⟩

variable {d : Description}

/-- A synchronization that arises under a limit arises under every larger one. -/
theorem Arises.mono {limit limit' : Int} (hlimit : limit ≤ limit') {g : GlobalTransition}
    (h : Arises d limit g) : Arises d limit' g := by
  obtain ⟨et, het, expansion, hexpansion, hchoice⟩ := h
  exact ⟨et, het, expansion, expand_subset_expand hlimit et.agents hexpansion, hchoice⟩

/-! ## Populations -/

namespace Configuration

variable {limit limit' : Nat} {bound bound' : Int64} {c c' : Configuration}

/-- One step stays possible when the bounds are raised. -/
theorem Step.mono (hlimit : limit ≤ limit') (hbound : bound.toInt ≤ bound'.toInt)
    (h : Step d limit bound c c') : Step d limit' bound' c c' := by
  cases h with
  | join hroom => exact .join (Int.lt_of_lt_of_le hroom hbound)
  | depart hleave => exact .depart hleave
  | synchronize het hbefore hexpands hpicked hperformed =>
      exact .synchronize het hbefore (hexpands.mono hlimit) hpicked hperformed

theorem Reachable.mono (hlimit : limit ≤ limit') (hbound : bound.toInt ≤ bound'.toInt)
    (h : Reachable d limit bound c) : Reachable d limit' bound' c := by
  induction h with
  | refl => exact .refl
  | tail _ hstep ih => exact ih.tail (hstep.mono hlimit hbound)

end Configuration

/-! ## Encodings -/

namespace Encoding.Abstracts

variable {opts opts' : CompositionOptions} {bound bound' : Int64} {enc enc' : Encoding}

/-- Every run can be replayed under larger bounds, by way of the population that
its last marking tallies. -/
theorem reachable_mono
    (h : enc.Abstracts d opts bound) (h' : enc'.Abstracts d opts' bound')
    (hlimit : opts.maxConcurrency ≤ opts'.maxConcurrency) (hbound : bound ≤ bound')
    {m : Marking} (hm : enc.system.Reachable m) : enc'.system.Reachable m := by
  obtain ⟨c, hc, -, htally⟩ := exists_population h hm
  have hraised := hc.mono (slotLimit_le_slotLimit hlimit) (Int64.le_iff_toInt_le.mp hbound)
  obtain ⟨-, m', hm', htally'⟩ := exists_marking h' hraised
  rw [htally.unique htally']
  exact hm'

theorem hazard_mono
    (h : enc.Abstracts d opts bound) (h' : enc'.Abstracts d opts' bound')
    (hlimit : opts.maxConcurrency ≤ opts'.maxConcurrency) {u : Hazard} (hu : u ∈ enc.hazards) :
    ∃ u' ∈ enc'.hazards, u'.marking = u.marking := by
  obtain ⟨g, hg, hforbidden, hmarking⟩ := h.exists_hazard_iff.mp ⟨u, hu, rfl⟩
  exact h'.exists_hazard_iff.mpr ⟨g, hg.mono hlimit, hforbidden, hmarking⟩

end Encoding.Abstracts

/-- A reachable marking answers the question about this hazard. -/
def Encoding.Detects (enc : Encoding) (u : Hazard) : Prop :=
  u ∈ enc.hazards ∧ ∃ m, enc.system.Reachable m ∧ (Explicit.pattern u.marking).matches m = true

/-- Larger bounds reach all that smaller ones reach, warn of all that smaller ones
warn of, and find again what was found. -/
theorem raised_bounds_hide_nothing
    {text : Text} (hread : Description.read text = .ok d) (opts opts' : CompositionOptions)
    (hlimit : opts.maxConcurrency ≤ opts'.maxConcurrency) {bound bound' : Int64}
    (hnonneg : 0 ≤ bound) (hbound : bound ≤ bound') (name name' : Text) :
    ∃ enc enc', encode d (compose d opts).transitions ⟨bound, name⟩ = .ok enc ∧
      encode d (compose d opts').transitions ⟨bound', name'⟩ = .ok enc' ∧
      (∀ m, enc.system.Reachable m → enc'.system.Reachable m) ∧
      (∀ u ∈ enc.hazards, ∃ u' ∈ enc'.hazards, u'.marking = u.marking) ∧
      ∀ u, enc.Detects u → ∃ u', u'.marking = u.marking ∧ enc'.Detects u' := by
  obtain ⟨enc, hencode, h⟩ := exists_abstracts hread opts hnonneg name
  obtain ⟨enc', hencode', h'⟩ := exists_abstracts hread opts' (Int64.le_trans hnonneg hbound) name'
  refine ⟨enc, enc', hencode, hencode', ?_, ?_, ?_⟩
  · intro m hm
    exact h.reachable_mono h' hlimit hbound hm
  · intro u hu
    exact h.hazard_mono h' hlimit hu
  · rintro u ⟨hu, m, hm, hmatches⟩
    obtain ⟨u', hu', hmarking⟩ := h.hazard_mono h' hlimit hu
    refine ⟨u', hmarking, hu', m, h.reachable_mono h' hlimit hbound hm, ?_⟩
    rw [hmarking]
    exact hmatches

theorem raised_bounds_hide_nothing_relay :
    ∃ d enc enc' u u', Description.read (relayText "done") = .ok d ∧ (1 : Int) ≤ 2 ∧
      (0 : Int64) ≤ 1 ∧ (1 : Int64) ≤ 5 ∧
      encode d (compose d ⟨1, false⟩).transitions ⟨1, []⟩ = .ok enc ∧
      encode d (compose d ⟨2, true⟩).transitions ⟨5, []⟩ = .ok enc' ∧
      (∀ m, enc.system.Reachable m → enc'.system.Reachable m) ∧
      enc.Detects u ∧ u'.marking = u.marking ∧ enc'.Detects u' := by
  obtain ⟨d, hread, hfound⟩ := Description.exists_eq_ok_of_any
    (x := Description.read (relayText "done"))
    (p := fun d => (encode d (compose d ⟨1, false⟩).transitions ⟨1, []⟩).toOption.any fun enc =>
      enc.hazards.any fun u =>
        (enc.system.run? ["spawn", "t1", "leave", "spawn"] enc.system.initial).any
          (Explicit.pattern u.marking).matches) (by decide +kernel)
  obtain ⟨enc, enc', hencode, hencode', hreachable, -, hdetects⟩ :=
    raised_bounds_hide_nothing hread ⟨1, false⟩ ⟨2, true⟩ (by decide)
      (by decide : (0 : Int64) ≤ 1) (by decide : (1 : Int64) ≤ 5) [] []
  simp only [hencode, Except.toOption, Option.any_some, List.any_eq_true,
    Option.any_eq_true] at hfound
  obtain ⟨u, hu, m, hrun, hmatches⟩ := hfound
  have hdetected : enc.Detects u :=
    ⟨hu, m, CounterSystem.Reachable.initial.run hrun, hmatches⟩
  obtain ⟨u', hmarking, hdetected'⟩ := hdetects u hdetected
  exact ⟨d, enc, enc', u, u', hread, by decide, by decide, by decide, hencode, hencode',
    hreachable, hdetected, hmarking, hdetected'⟩

end Population
