import Population.Proofs.CounterSystem.Reachability
import Population.Proofs.Marking.Key
import Population.Proofs.StateSpace.Pattern

/-!
# Markings that agree behave alike

Two markings may differ in which zeros they mention and still be one
configuration.  They are told apart neither by `Marking.same` nor by their keys,
the same transitions fire from both with results that agree again, and they match
the same patterns.
-/

namespace Population

namespace Marking

/-- The two markings give every counter the same value. -/
def Agree (a b : Marking) : Prop :=
  ∀ n, a.get n = b.get n

variable {a b c : Marking}

theorem Agree.refl (a : Marking) : Agree a a :=
  fun _ => rfl

theorem Agree.symm (h : Agree a b) : Agree b a :=
  fun n => (h n).symm

theorem Agree.trans (h : Agree a b) (h' : Agree b c) : Agree a c :=
  fun n => (h n).trans (h' n)

theorem Agree.value_eq (h : Agree a b) (n : Text) : a.value n = b.value n :=
  get_eq_iff_value_eq.mp (h n)

theorem same_iff_agree : a.same b = true ↔ Agree a b := by
  simp only [same, Bool.and_eq_true, List.all_eq_true, beq_iff_eq, Prod.forall]
  constructor
  · rintro ⟨hleft, hright⟩ n
    by_cases ha : n ∈ a.domain
    · exact (hleft n _ (mem_entries_of_mem_domain ha)).symm
    by_cases hb : n ∈ b.domain
    · exact hright n _ (mem_entries_of_mem_domain hb)
    · rw [get_of_not_mem_domain ha, get_of_not_mem_domain hb]
  · intro h
    constructor
    · intro n v hentry
      rw [← h n, get_of_mem_entries hentry]
    · intro n v hentry
      rw [h n, get_of_mem_entries hentry]

theorem not_agree_of_same_eq_false (h : a.same b = false) : ¬Agree a b := by
  intro hagree
  rw [same_iff_agree.mpr hagree] at h
  exact Bool.noConfusion h

theorem same_eq_false_of_not_agree (h : ¬Agree a b) : a.same b = false := by
  rw [Bool.eq_false_iff]
  exact fun hsame => h (same_iff_agree.mp hsame)

/-! ## Keys -/

theorem mem_support_iff {m : Marking} {e : Text × Int64} :
    e ∈ m.support ↔ e.2 ≠ 0 ∧ m.get e.1 = e.2 := by
  rw [support, List.mem_filter, bne_iff_ne]
  constructor
  · rintro ⟨hentry, hv⟩
    exact ⟨hv, get_of_mem_entries hentry⟩
  · rintro ⟨hv, hget⟩
    have hmem : e.1 ∈ m.domain := by
      by_contra habsent
      exact hv (hget.symm.trans (get_of_not_mem_domain habsent))
    have hentry := mem_entries_of_mem_domain hmem
    rw [hget] at hentry
    exact ⟨hentry, hv⟩

/-- Zeros do not show in a key. -/
theorem Agree.key_eq (h : Agree a b) : a.key = b.key := by
  have hordered : ∀ m : Marking,
      m.support.Pairwise fun e f => compare e.1 f.1 = .lt :=
    fun m => m.ordered.sublist List.filter_sublist
  have hsupport : a.support = b.support := by
    refine eq_of_ordered (·.1) (hordered a) (hordered b) fun e => ?_
    rw [mem_support_iff, mem_support_iff, h e.1]
  rw [Marking.key_eq, Marking.key_eq, hsupport]

/-- Markings of identifiers agree exactly when their keys are equal. -/
theorem key_eq_iff_agree
    (ha : ∀ n ∈ a.domain, Name.isValid n = true)
    (hb : ∀ n ∈ b.domain, Name.isValid n = true) : a.key = b.key ↔ Agree a b :=
  ⟨get_eq_of_key_eq ha hb, Agree.key_eq⟩

theorem Agree.nonNegative_eq (h : Agree a b) : a.nonNegative = b.nonNegative := by
  rw [Bool.eq_iff_iff, nonNegative_iff, nonNegative_iff]
  exact forall_congr' fun n => by rw [h.value_eq n]

end Marking

open Marking (Agree)

variable {a b : Marking}

/-! ## Firing -/

theorem Guard.holds_eq_of_agree (h : Agree a b) (g : Guard) : g.holds a = g.holds b := by
  have hatom : ∀ c : Comparison, c.holds a = c.holds b := by
    intro c
    rw [Comparison.holds, Comparison.holds, h c.name]
  simp only [Guard.holds, hatom]

theorem Updates.agree_apply (h : Agree a b) (us : Updates) :
    Agree (us.apply a) (us.apply b) := by
  induction us generalizing a b with
  | nil => exact h
  | cons u rest ih =>
      rw [apply_cons, apply_cons]
      apply ih
      intro n
      rw [Marking.get_add, Marking.get_add, h u.name, h n]

theorem Transition.exists_fire?_of_agree
    {t : Transition} {next : Marking} (h : Agree a b) (hfire : t.fire? a = some next) :
    ∃ next', t.fire? b = some next' ∧ Agree next next' := by
  obtain ⟨hguard, rfl, hnonneg⟩ := Transition.fire?_eq_some_iff.mp hfire
  have hagree := Updates.agree_apply h t.updates
  refine ⟨t.updates.apply b, Transition.fire?_eq_some_iff.mpr ⟨?_, rfl, ?_⟩, hagree⟩
  · rw [← Guard.holds_eq_of_agree h]
    exact hguard
  · rw [← hagree.nonNegative_eq]
    exact hnonneg

/-! ## Patterns -/

theorem Pattern.matches_of_agree (p : Pattern) (h : Agree a b) (ha : p.matches a = true) :
    p.matches b = true := by
  cases p with
  | exactly target ignored =>
      rw [exactly_matches_iff] at ha ⊢
      intro n hn
      rw [← h n, ha n hn]
  | covers target =>
      rw [covers_matches_iff] at ha ⊢
      intro n hn
      rw [← h n, ha n hn]
  | atLeast target =>
      rw [atLeast_matches_iff] at ha ⊢
      intro n hn
      rw [← h.value_eq n]
      exact ha n hn

end Population
