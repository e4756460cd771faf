import Population.Text.Basic

/-!
# Sorted lists of names

Names are sorted by insertion.  The result is ordered and a permutation of the
input, and an ordered list is determined by its multiset of members.  So two
lists have the same sorted form exactly when they are permutations of each
other, which is what makes the sorted list of co-occurring actions a key.
-/

namespace Population.Text

variable {α : Type} [Ord α]

/-- Members ascend, neighbours may be equal. -/
def Ascending (xs : List α) : Prop :=
  xs.Pairwise fun a b => (compare a b).isLE = true

/-- The strict order by which `sortBy` is called. -/
abbrev comesFirst (a b : α) : Bool :=
  compare a b == .lt

theorem insertBy_ascending
    [Std.TransOrd α] (a : α) {xs : List α} (hxs : Ascending xs) :
    Ascending (insertBy comesFirst a xs) := by
  induction xs with
  | nil => simp [insertBy, Ascending]
  | cons b rest ih =>
      obtain ⟨hb, hrest⟩ := List.pairwise_cons.mp hxs
      by_cases hba : compare b a = .lt
      · simp only [insertBy, comesFirst, hba, beq_self_eq_true, if_true]
        refine List.pairwise_cons.mpr ⟨?_, ih hrest⟩
        intro c hc
        have hc' := (insertBy_perm comesFirst a rest).mem_iff.mp hc
        rcases List.mem_cons.mp hc' with rfl | hc'
        · simp [hba]
        · exact hb c hc'
      · have hab : (compare a b).isLE = true := by
          rw [Std.OrientedOrd.eq_swap]
          cases h : compare b a <;> simp_all
        simp only [insertBy, comesFirst, beq_iff_eq, hba, if_false]
        refine List.pairwise_cons.mpr ⟨?_, hxs⟩
        intro c hc
        rcases List.mem_cons.mp hc with rfl | hc
        · exact hab
        · exact Std.TransCmp.isLE_trans hab (hb c hc)

/-- Sorting puts a list in order. -/
theorem sortBy_ascending
    [Std.TransOrd α] (xs : List α) :
    Ascending (sortBy comesFirst xs) := by
  induction xs with
  | nil => exact List.Pairwise.nil
  | cons a rest ih => exact insertBy_ascending a ih

/-- A list in order is determined by its multiset of members. -/
theorem eq_of_perm_of_ascending
    [Std.OrientedOrd α] [Std.LawfulEqOrd α] {xs ys : List α}
    (hxs : Ascending xs) (hys : Ascending ys) (h : xs.Perm ys) :
    xs = ys := by
  refine List.Perm.eq_of_pairwise ?_ hxs hys h
  intro a b _ _ hab hba
  exact Std.LawfulEqCmp.eq_of_compare (Std.OrientedCmp.isLE_antisymm hab hba)

/-- Sorting names only reorders them. -/
theorem sort_perm (names : List Text) : (sort names).Perm names :=
  sortBy_perm precedes names

/-- Sorted names are in order. -/
theorem sort_ascending (names : List Text) : Ascending (sort names) :=
  sortBy_ascending names

/-- Two lists of names have the same sorted form exactly when they are
permutations of each other. -/
theorem sort_eq_sort_iff {xs ys : List Text} :
    sort xs = sort ys ↔ xs.Perm ys := by
  constructor
  · intro h
    exact (sort_perm xs).symm.trans (h ▸ sort_perm ys)
  · intro h
    have hperm : (sort xs).Perm (sort ys) :=
      ((sort_perm xs).trans h).trans (sort_perm ys).symm
    exact eq_of_perm_of_ascending (sort_ascending xs) (sort_ascending ys) hperm

end Population.Text
