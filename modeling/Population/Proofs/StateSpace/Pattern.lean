import Population.StateSpace.Search
import Population.Proofs.Marking.Basic

/-!
# What patterns ask of a marking

A pattern walks over the entries of the target and of the marking.  What it asks
can be said counter by counter, so two markings that agree on every counter match
the same patterns.
-/

namespace Population.Pattern

variable {target m : Marking}

/-- Exact agreement is agreement on every counter that is not ignored. -/
theorem exactly_matches_iff {ignored : List Text} :
    (exactly target ignored).matches m = true ↔
      ∀ n, n ∉ ignored → m.get n = target.get n := by
  simp only [Pattern.matches, Bool.and_eq_true, List.all_eq_true, Bool.or_eq_true,
    List.contains_iff_mem, beq_iff_eq, Prod.forall]
  constructor
  · rintro ⟨hmarking, htarget⟩ n hn
    by_cases hm : n ∈ m.domain
    · exact (hmarking n _ (Marking.mem_entries_of_mem_domain hm)).resolve_left hn
    by_cases ht : n ∈ target.domain
    · exact (htarget n _ (Marking.mem_entries_of_mem_domain ht)).resolve_left hn
    · rw [Marking.get_of_not_mem_domain hm, Marking.get_of_not_mem_domain ht]
  · intro h
    constructor
    · intro n v hentry
      by_cases hn : n ∈ ignored
      · exact .inl hn
      · exact .inr ((Marking.get_of_mem_entries hentry).symm.trans (h n hn))
    · intro n v hentry
      by_cases hn : n ∈ ignored
      · exact .inl hn
      · exact .inr ((h n hn).trans (Marking.get_of_mem_entries hentry))

/-- What a target asks of its entries it asks of the counters that it mentions. -/
theorem forall_entries_iff {P : Text → Int64 → Prop} :
    (∀ n v, (n, v) ∈ target.entries → P n v) ↔ ∀ n ∈ target.domain, P n (target.get n) := by
  constructor
  · intro h n hn
    exact h n _ (Marking.mem_entries_of_mem_domain hn)
  · intro h n v hentry
    rw [← Marking.get_of_mem_entries hentry]
    exact h n (List.mem_map.mpr ⟨(n, v), hentry, rfl⟩)

theorem covers_matches_iff :
    (covers target).matches m = true ↔ ∀ n ∈ target.domain, m.get n = target.get n := by
  simp only [Pattern.matches, List.all_eq_true, beq_iff_eq, Prod.forall]
  exact forall_entries_iff (P := fun n v => m.get n = v)

theorem atLeast_matches_iff :
    (atLeast target).matches m = true ↔ ∀ n ∈ target.domain, target.value n ≤ m.value n := by
  simp only [Pattern.matches, List.all_eq_true, decide_eq_true_eq, Prod.forall,
    Int64.le_iff_toInt_le]
  exact forall_entries_iff (P := fun n v => v.toInt ≤ m.value n)

end Population.Pattern
