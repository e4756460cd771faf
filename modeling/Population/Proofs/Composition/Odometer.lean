import Population.Composition.Expansion
import Population.Proofs.Text.Sorting
import Mathlib.Algebra.Ring.Nat
import Mathlib.Data.List.Induction

/-!
# What an odometer passes through

The counts of an odometer are the digits of its reading, and each turn adds one to
the reading.  From the start on it therefore passes through the digits of all
numbers below the limit to the power of the number of slots, one after the other,
and then it is at its end.  Filling sorted slots as counted gives sorted
expansions; and since only the sorted slots are filled, expansions depend on the
slots up to permutation.
-/

namespace Population

namespace Odometer

variable {limit : Nat}

/-! ## Counts and readings -/

/-- The counts as the digits of a number to the base `limit`, where one counts as
zero. -/
def reading (limit : Nat) (counts : List Nat) : Nat :=
  counts.foldl (fun r n => r * limit + (n - 1)) 0

theorem reading_concat (limit : Nat) (counts : List Nat) (n : Nat) :
    reading limit (counts ++ [n]) = reading limit counts * limit + (n - 1) := by
  simp [reading]

/-- What is read and the turns that are left add up to the last number. -/
theorem reading_add_turnsLeft {counts : List Nat} (h : ∀ n ∈ counts, 1 ≤ n ∧ n ≤ limit) :
    reading limit counts + turnsLeft limit counts + 1 = limit ^ counts.length := by
  induction counts using List.reverseRecOn with
  | nil => rfl
  | append_singleton front n ih =>
      obtain ⟨hpos, hle⟩ := h n (by simp)
      rw [reading_concat, turnsLeft_concat, List.length_append, List.length_singleton,
        Nat.pow_succ, ← ih fun m hm => h m (by simp [hm]), Nat.succ_mul, Nat.add_mul]
      omega

theorem reading_lt {counts : List Nat} (h : ∀ n ∈ counts, 1 ≤ n ∧ n ≤ limit) :
    reading limit counts < limit ^ counts.length := by
  have := reading_add_turnsLeft h
  omega

/-- A turn adds one to the reading. -/
theorem Turns.reading {counts next : List Nat} (hturns : Turns limit counts next)
    (h : ∀ n ∈ counts, 1 ≤ n ∧ n ≤ limit) :
    reading limit next = reading limit counts + 1 := by
  have hcounts := reading_add_turnsLeft h
  have hnext := reading_add_turnsLeft hturns.within
  rw [hturns.length] at hnext
  have hleft := hturns.turnsLeft
  omega

/-- Digit `i` of the `n` digits of `j` to a base, the most significant one first. -/
def digit (base n j i : Nat) : Nat :=
  j / base ^ (n - 1 - i) % base

/-- The counts that read `j`. -/
def countsOf (limit n j : Nat) : List Nat :=
  (List.range n).map fun i => 1 + digit limit n j i

theorem length_countsOf (limit n j : Nat) : (countsOf limit n j).length = n := by
  simp [countsOf]

theorem countsOf_succ (limit n j : Nat) :
    countsOf limit (n + 1) j = countsOf limit n (j / limit) ++ [1 + j % limit] := by
  have hfront : ∀ i ∈ List.range n,
      1 + digit limit (n + 1) j i = 1 + digit limit n (j / limit) i := by
    intro i hi
    have hexp : n + 1 - 1 - i = n - 1 - i + 1 := by
      have := List.mem_range.mp hi
      omega
    rw [digit, digit, hexp, Nat.pow_succ', Nat.div_div_eq_div_mul]
  rw [countsOf, countsOf, List.range_succ, List.map_append, List.map_congr_left hfront]
  simp [digit]

/-- Counts are determined by what they read. -/
theorem countsOf_reading {counts : List Nat} (h : ∀ n ∈ counts, 1 ≤ n ∧ n ≤ limit) :
    countsOf limit counts.length (reading limit counts) = counts := by
  induction counts using List.reverseRecOn with
  | nil => rfl
  | append_singleton front n ih =>
      obtain ⟨hpos, hle⟩ := h n (by simp)
      have hdiv : (reading limit front * limit + (n - 1)) / limit = reading limit front := by
        rw [Nat.mul_comm, Nat.mul_add_div (by omega), Nat.div_eq_of_lt (by omega), Nat.add_zero]
      have hmod : (reading limit front * limit + (n - 1)) % limit = n - 1 := by
        rw [Nat.mul_comm, Nat.mul_add_mod, Nat.mod_eq_of_lt (by omega)]
      rw [List.length_append, List.length_singleton, reading_concat, countsOf_succ, hdiv, hmod,
        ih fun m hm => h m (by simp [hm]), Nat.add_sub_cancel' hpos]

/-! ## Turning the odometer -/

theorem turnsLeft_of_advance_eq_none {o : Odometer limit} (h : o.advance = none) :
    turnsLeft limit o.counts = 0 := by
  rcases carry_cases [] o.within with ⟨-, hleft⟩ | ⟨next, hsome, -⟩
  · exact hleft
  · rw [List.append_nil] at hsome
    rw [advance] at h
    split at h
    next hnone =>
      rw [hsome] at hnone
      cases hnone
    next => cases h

/-- The odometer passes through the counts of its reading and of all later ones. -/
theorem passes_eq (o : Odometer limit) :
    o.passes = (List.range' (reading limit o.counts) (turnsLeft limit o.counts + 1)).map
      (countsOf limit o.counts.length) := by
  fun_induction passes o with
  | case1 o hend =>
      rw [turnsLeft_of_advance_eq_none hend, List.range'_one, List.map_singleton,
        countsOf_reading o.within]
  | case2 o next hnext _ ih =>
      have hturns := turns_of_advance hnext
      rw [hturns.turnsLeft, List.range'_succ, List.map_cons, countsOf_reading o.within, ih,
        hturns.length, hturns.reading o.within]

/-- The odometer after some turns. -/
def after (o : Odometer limit) : Nat → Option (Odometer limit)
  | 0 => some o
  | j + 1 => (o.after j).bind advance

/-- After each turn one less is left, until none is left. -/
theorem after_cases (o : Odometer limit) (j : Nat) :
    o.after j = none ∧ turnsLeft limit o.counts < j ∨
      ∃ o', o.after j = some o' ∧
        turnsLeft limit o.counts = turnsLeft limit o'.counts + j := by
  induction j with
  | zero => exact .inr ⟨o, rfl, rfl⟩
  | succ j ih =>
      rcases ih with ⟨hnone, hlt⟩ | ⟨o', hsome, hleft⟩
      · exact .inl ⟨by rw [after, hnone]; rfl, by omega⟩
      · cases hnext : o'.advance with
        | none =>
            have hzero := turnsLeft_of_advance_eq_none hnext
            exact .inl ⟨by rw [after, hsome, Option.bind_some, hnext], by omega⟩
        | some next =>
            have hturn := (turns_of_advance hnext).turnsLeft
            exact .inr ⟨next, by rw [after, hsome, Option.bind_some, hnext], by omega⟩

/-- The odometer can be turned as long as turns are left, and no longer. -/
theorem after_isSome_iff (o : Odometer limit) (j : Nat) :
    (o.after j).isSome = true ↔ j ≤ turnsLeft limit o.counts := by
  rcases o.after_cases j with ⟨hnone, hlt⟩ | ⟨o', hsome, hleft⟩
  · simp [hnone, hlt]
  · simp [hsome, hleft]

section Start

variable (h : 1 ≤ limit) (n : Nat)

theorem reading_start : reading limit (start h n).counts = 0 := by
  induction n with
  | zero => rfl
  | succ n ih =>
      have hcounts : (start h (n + 1)).counts = (start h n).counts ++ [1] :=
        List.replicate_succ'
      rw [hcounts, reading_concat, ih, Nat.zero_mul]

theorem length_start : (start h n).counts.length = n :=
  List.length_replicate

theorem turnsLeft_start : turnsLeft limit (start h n).counts + 1 = limit ^ n := by
  have hsum := reading_add_turnsLeft (start h n).within
  rwa [reading_start, Nat.zero_add, length_start] at hsum

/-- From the start on the odometer passes through the digits of all numbers. -/
theorem passes_start : (start h n).passes = (List.range (limit ^ n)).map (countsOf limit n) := by
  rw [passes_eq, reading_start, turnsLeft_start, length_start, List.range_eq_range']

/-- From the start on the odometer passes through all counts within the limit. -/
theorem mem_passes_start {counts : List Nat} :
    counts ∈ (start h n).passes ↔
      counts.length = n ∧ ∀ m ∈ counts, 1 ≤ m ∧ m ≤ limit := by
  rw [passes_start, List.mem_map]
  constructor
  · rintro ⟨j, -, rfl⟩
    refine ⟨length_countsOf limit n j, ?_⟩
    intro m hm
    obtain ⟨i, -, rfl⟩ := List.mem_map.mp hm
    have : digit limit n j i < limit := Nat.mod_lt _ h
    omega
  · rintro ⟨rfl, hwithin⟩
    exact ⟨reading limit counts, List.mem_range.mpr (reading_lt hwithin),
      countsOf_reading hwithin⟩

end Start

end Odometer

/-! ## Filling the slots -/

section Filling

variable {slots : List Text}

theorem fill_cons (action : Text) (slots : List Text) (n : Nat) (counts : List Nat) :
    fill (action :: slots) (n :: counts) = List.replicate n action ++ fill slots counts := rfl

theorem fill_subset (slots : List Text) (counts : List Nat) : fill slots counts ⊆ slots := by
  induction slots generalizing counts with
  | nil => simp [fill]
  | cons action slots ih =>
      cases counts with
      | nil => simp [fill]
      | cons n counts =>
          intro a ha
          rcases List.mem_append.mp ha with ha | ha
          · rw [List.eq_of_mem_replicate ha]
            exact List.mem_cons_self
          · exact List.mem_cons_of_mem action (ih counts ha)

/-- Sorted slots are filled to a sorted expansion. -/
theorem ascending_fill (hslots : Text.Ascending slots) (counts : List Nat) :
    Text.Ascending (fill slots counts) := by
  induction slots generalizing counts with
  | nil => exact List.Pairwise.nil
  | cons action slots ih =>
      obtain ⟨hfirst, hrest⟩ := List.pairwise_cons.mp hslots
      cases counts with
      | nil => exact List.Pairwise.nil
      | cons n counts =>
          refine List.pairwise_append.mpr ⟨?_, ih hrest counts, ?_⟩
          · exact List.pairwise_replicate.mpr (.inr (by simp))
          · intro b hb c hc
            rw [List.eq_of_mem_replicate hb]
            exact hfirst c (fill_subset slots counts hc)

/-- Filling slots as the digits of a number say. -/
theorem fill_countsOf (limit j : Nat) (slots : List Text) :
    fill slots (Odometer.countsOf limit slots.length j) =
      slots.zipIdx.flatMap fun (action, i) =>
        List.replicate (1 + Odometer.digit limit slots.length j i) action := by
  rw [fill, List.flatMap]
  congr 1
  apply List.ext_getElem
  · simp [Odometer.countsOf]
  · intro i _ _
    simp [Odometer.countsOf]

end Filling

/-! ## Expansions -/

section Expansions

variable {slots expansion : List Text} {limit : Int}

theorem expand_eq (slots : List Text) (limit : Int) :
    expand slots limit =
      (Odometer.start (one_le_slotLimit limit) slots.length).passes.map
        (fill (Text.sort slots)) := by
  rw [← (Text.sort_perm slots).length_eq, expand]
  rfl

/-- Listing the expansions of the slots in a cell leaves all cells as they are and
fills a new one. -/
theorem expandCell_eq (cell : Nat) (limit : Int) (c : NameCells) :
    expandCell cell limit c =
      (expand (c.lists[cell]?.getD []) limit,
        ⟨c.lists ++ [Text.sort (c.lists[cell]?.getD [])]⟩) := by
  have hsorted : (c.lists ++ [c.lists[cell]?.getD []]).modify c.lists.length Text.sort =
      c.lists ++ [Text.sort (c.lists[cell]?.getD [])] := by
    simp [List.modify_eq_take_cons_drop]
  have hread : (c.lists ++ [Text.sort (c.lists[cell]?.getD [])])[c.lists.length]?.getD [] =
      Text.sort (c.lists[cell]?.getD []) := by
    simp
  -- What is listed is read from the lists with the sorted copy.
  have hrun : ∀ lists sorted,
      (c.lists ++ [c.lists[cell]?.getD []]).modify c.lists.length Text.sort = lists →
      lists[c.lists.length]?.getD [] = sorted →
      expandCell cell limit c =
        ((Odometer.start (one_le_slotLimit limit) sorted.length).passes.map (fill sorted),
          ⟨lists⟩) := by
    rintro _ _ rfl rfl
    rfl
  rw [hrun _ _ hsorted hread, expand_eq, (Text.sort_perm _).length_eq]

theorem length_expand_slotLimit (slots : List Text) (limit : Int) :
    (expand slots limit).length = slotLimit limit ^ slots.length := by
  rw [expand_eq, List.length_map, Odometer.passes_start, List.length_map, List.length_range]

/-- The expansions fill the sorted slots with all counts within the limit. -/
theorem mem_expand_iff_fill :
    expansion ∈ expand slots limit ↔
      ∃ counts, counts.length = slots.length ∧ (∀ n ∈ counts, 1 ≤ n ∧ n ≤ slotLimit limit) ∧
        fill (Text.sort slots) counts = expansion := by
  simp only [expand_eq, List.mem_map, Odometer.mem_passes_start, and_assoc]

theorem subset_of_mem_expand (h : expansion ∈ expand slots limit) : expansion ⊆ slots := by
  obtain ⟨counts, -, -, rfl⟩ := mem_expand_iff_fill.mp h
  intro a ha
  exact (Text.sort_perm slots).mem_iff.mp (fill_subset _ counts ha)

theorem ascending_of_mem_expand (h : expansion ∈ expand slots limit) :
    Text.Ascending expansion := by
  obtain ⟨counts, -, -, rfl⟩ := mem_expand_iff_fill.mp h
  exact ascending_fill (Text.sort_ascending slots) counts

/-- Each expansion fills the sorted slots as the digits of its place say. -/
theorem getElem?_expand {j : Nat} (hj : j < slotLimit limit ^ slots.length) :
    (expand slots limit)[j]? = some ((Text.sort slots).zipIdx.flatMap fun (action, i) =>
      List.replicate (1 + Odometer.digit (slotLimit limit) slots.length j i) action) := by
  rw [expand_eq, Odometer.passes_start, List.getElem?_map, List.getElem?_map,
    List.getElem?_range hj, Option.map_some, Option.map_some, ← (Text.sort_perm slots).length_eq,
    fill_countsOf]

theorem expand_perm {slots' : List Text} (h : slots'.Perm slots) (limit : Int) :
    expand slots' limit = expand slots limit := by
  rw [expand_eq, expand_eq, h.length_eq, Text.sort_eq_sort_iff.mpr h]

end Expansions

/-- The expansions of `n` slots under a limit `k` are listed completely: the
odometer ends after `k ^ n` counts, and as many expansions are listed, in the order
of the digits of their numbers.  They are sorted, depend on the slots up to
permutation, and leave the list of the slots as it is. -/
structure ListsExpansions (slots : List Text) (limit : Int) : Prop where
  limit_eq : (slotLimit limit : Int) = max limit 1
  /-- The odometer can be turned less than `k ^ n` times. -/
  ends : ∀ j, ((Odometer.start (one_le_slotLimit limit) slots.length).after j).isSome = true ↔
    j < slotLimit limit ^ slots.length
  length : (expand slots limit).length = slotLimit limit ^ slots.length
  getElem? : ∀ j < slotLimit limit ^ slots.length,
    (expand slots limit)[j]? = some ((Text.sort slots).zipIdx.flatMap fun (action, i) =>
      List.replicate (1 + Odometer.digit (slotLimit limit) slots.length j i) action)
  ascending : ∀ expansion ∈ expand slots limit, Text.Ascending expansion
  /-- Wherever the slots stand, they and all other lists stay. -/
  unchanged : ∀ (c : NameCells) cell, c.lists[cell]? = some slots →
    (expandCell cell limit c).1 = expand slots limit ∧
      ∀ i < c.lists.length, (expandCell cell limit c).2.lists[i]? = c.lists[i]?
  perm : ∀ slots' : List Text, slots'.Perm slots → expand slots' limit = expand slots limit

/-- Expansions are listed completely, whatever the slots and the limit. -/
theorem lists_expansions (slots : List Text) (limit : Int) : ListsExpansions slots limit where
  limit_eq := by
    unfold slotLimit
    omega
  ends j := by
    rw [Odometer.after_isSome_iff, ← Odometer.turnsLeft_start (one_le_slotLimit limit)]
    omega
  length := length_expand_slotLimit slots limit
  getElem? _ := getElem?_expand
  ascending _ := ascending_of_mem_expand
  unchanged c cell hcell := by
    rw [expandCell_eq, hcell]
    exact ⟨rfl, fun i hi => List.getElem?_append_left hi⟩
  perm _ h := expand_perm h limit

/-- The last slot of the sorted slots varies fastest. -/
example : expand ["b", "a"] 2 =
    ([["a", "b"], ["a", "b", "b"], ["a", "a", "b"], ["a", "a", "b", "b"]] : List (List Text)) := by
  decide +kernel

end Population
