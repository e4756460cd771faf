import Population.Description.Key
import Population.Proofs.Text.Sorting
import Mathlib.Data.List.Basic

/-!
# The index of local transitions

Keys are totally ordered, and the entries of an index strictly ascend by their
keys.  So a bisection cuts the entries into those below a key and the others, and
the key is found exactly if it is the first of these.  Adding a transition
replaces the entry of its key between the two parts, or puts one there; entries
go on to ascend, and only the group of that key grows.  After all additions the
group of each key holds the transitions with the key, in their order.
-/

namespace Population

/-! ## The order of keys -/

namespace TransitionKey

instance : Std.LawfulEqCmp order where
  eq_of_compare {a b} h := by
    obtain ⟨action, sync, concurrent⟩ := a
    obtain ⟨action', sync', concurrent'⟩ := b
    simp only [order, compareLex, compareOn, Ordering.then_eq_eq] at h
    obtain ⟨haction, hsync, hconcurrent⟩ := h
    rw [Std.LawfulEqCmp.eq_of_compare haction, Std.LawfulEqCmp.eq_of_compare hsync,
      Std.LawfulEqCmp.eq_of_compare hconcurrent]

/-- Keys agree when they name the same actions up to order. -/
theorem of_eq_of_iff
    {action action' sync sync' : Text} {concurrent concurrent' : List Text} :
    of action sync concurrent = of action' sync' concurrent' ↔
      action = action' ∧ sync = sync' ∧ concurrent.Perm concurrent' := by
  rw [of, of, TransitionKey.mk.injEq, Text.sort_eq_sort_iff]

theorem agrees_iff {k other : TransitionKey} : k.agrees other = true ↔ k = other := by
  rw [agrees, beq_iff_eq, Std.LawfulEqCmp.compare_eq_iff_eq]

theorem ne_of_order_lt {k other : TransitionKey} (h : order k other = .lt) : k ≠ other := by
  intro heq
  have hsame : order k other = .eq := Std.LawfulEqCmp.compare_eq_iff_eq.mpr heq
  rw [h] at hsame
  cases hsame

theorem order_lt_of_not_lt {k other : TransitionKey} (h : order other k ≠ .lt) (hne : other ≠ k) :
    order k other = .lt := by
  cases hord : order k other with
  | lt => rfl
  | eq => exact absurd (Std.LawfulEqCmp.eq_of_compare hord).symm hne
  | gt => exact absurd (Std.OrientedCmp.lt_of_gt hord) h

end TransitionKey

/-! ## Bisection -/

/-- Where the condition is inherited by earlier elements, it holds exactly in
front of the place that a bisection finds. -/
theorem bisect_spec
    {α : Type} (holds : α → Bool) {xs : Array α} {lo hi : Nat} {hhi : hi ≤ xs.size}
    (hinherit : ∀ i j (hij : i ≤ j) (hj : j < xs.size), holds xs[j] = true →
      holds xs[i] = true)
    (hle : lo ≤ hi)
    (hfront : ∀ i (hi' : i < xs.size), i < lo → holds xs[i] = true)
    (hback : ∀ i (hi' : i < xs.size), hi ≤ i → holds xs[i] = false)
    (i : Nat) (hi' : i < xs.size) :
    holds xs[i] = true ↔ i < bisect holds xs lo hi hhi := by
  fun_induction bisect holds xs lo hi hhi with
  | case1 lo hi hhi hlt hmid ih =>
      refine ih hinherit (by omega) ?_ hback
      intro j hj hjlo
      exact hinherit j ((lo + hi) / 2) (by omega) (by omega) hmid
  | case2 lo hi hhi hlt hmid ih =>
      refine ih hinherit (by omega) hfront ?_
      intro j hj hmj
      rw [← Bool.not_eq_true]
      intro hholds
      exact hmid (hinherit ((lo + hi) / 2) j hmj hj hholds)
  | case3 lo hi hhi hge =>
      constructor
      · intro hholds
        by_contra hlo
        rw [hback i hi' (by omega)] at hholds
        cases hholds
      · exact hfront i hi'

namespace TransitionIndex

open TransitionKey (order)

/-- Each entry has a smaller key than all entries behind it. -/
def Increasing (ix : TransitionIndex) : Prop :=
  ix.entries.toList.Pairwise fun e e' => order e.key e'.key = .lt

theorem increasing_empty : Increasing ∅ :=
  List.Pairwise.nil

/-! ## Searching for a key -/

section Search

variable {ix : TransitionIndex}

theorem Increasing.position_spec
    (h : ix.Increasing) (k : TransitionKey) (i : Nat) (hi : i < ix.entries.size) :
    order ix.entries[i].key k = .lt ↔ i < ix.position k := by
  rw [← beq_iff_eq, position]
  refine bisect_spec (fun e => order e.key k == .lt) ?_ (Nat.zero_le _) ?_ ?_ i hi
  · intro i j hij hj hbelow
    rcases Nat.eq_or_lt_of_le hij with rfl | hlt
    · exact hbelow
    · have hord := List.pairwise_iff_getElem.mp h i j (by simp; omega) (by simpa using hj) hlt
      rw [Array.getElem_toList, Array.getElem_toList] at hord
      rw [beq_iff_eq] at hbelow ⊢
      exact Std.TransCmp.lt_trans hord hbelow
  · intro j _ hlt
    omega
  · intro j hj hge
    omega

/-- The place of a key cuts the entries into those below it and the others. -/
theorem Increasing.exists_cut (h : ix.Increasing) (k : TransitionKey) :
    ∃ front rest, ix.entries.toList = front ++ rest ∧ front.length = ix.position k ∧
      (∀ e ∈ front, order e.key k = .lt) ∧ ∀ e ∈ rest, order e.key k ≠ .lt := by
  refine ⟨ix.entries.toList.take (ix.position k), ix.entries.toList.drop (ix.position k),
    (List.take_append_drop _ _).symm, ?_, ?_, ?_⟩
  · rw [List.length_take, Array.length_toList]
    exact Nat.min_eq_left (ix.position_le k)
  · intro e he
    obtain ⟨i, hi, rfl⟩ := List.mem_iff_getElem.mp he
    rw [List.getElem_take, Array.getElem_toList, h.position_spec]
    rw [List.length_take] at hi
    omega
  · intro e he
    obtain ⟨i, hi, rfl⟩ := List.mem_iff_getElem.mp he
    rw [List.getElem_drop, Array.getElem_toList, Ne, h.position_spec]
    omega

theorem key_eq_of_find? {k : TransitionKey} {e : KeyedTransitions} (h : ix.find? k = some e) :
    e.key = k :=
  TransitionKey.agrees_iff.mp (Option.filter_eq_some_iff.mp h).2

/-- The search cuts the entries into those below the key, the entry of the key if
there is one, and those above the key. -/
theorem Increasing.exists_split (h : ix.Increasing) (k : TransitionKey) :
    ∃ front back, ix.entries.toList = front ++ ((ix.find? k).toList ++ back) ∧
      front.length = ix.position k ∧
      (∀ e ∈ front, order e.key k = .lt) ∧ ∀ e ∈ back, order k e.key = .lt := by
  obtain ⟨front, rest, hentries, hlength, hfront, hrest⟩ := h.exists_cut k
  have hentry : ix.find? k = rest.head?.filter (·.key.agrees k) := by
    rw [find?, ← Array.getElem?_toList, hentries, ← hlength,
      List.getElem?_append_right (Nat.le_refl _), Nat.sub_self, List.head?_eq_getElem?]
  rw [Increasing, hentries, List.pairwise_append] at h
  cases rest with
  | nil =>
      refine ⟨front, [], ?_, hlength, hfront, by simp⟩
      simpa [hentry] using hentries
  | cons e back =>
      obtain ⟨hback, -⟩ := List.pairwise_cons.mp h.2.1
      by_cases heq : e.key = k
      · have hfound : ix.find? k = some e := by
          simp [hentry, heq, TransitionKey.agrees_iff]
        refine ⟨front, back, by rw [hfound]; exact hentries, hlength, hfront, ?_⟩
        rwa [heq] at hback
      · have hmissing : ix.find? k = none := by
          simp [hentry, heq, TransitionKey.agrees_iff]
        have hfirst : order k e.key = .lt :=
          TransitionKey.order_lt_of_not_lt (hrest e List.mem_cons_self) heq
        refine ⟨front, e :: back, by rw [hmissing]; exact hentries, hlength, hfront, ?_⟩
        intro e' he'
        rcases List.mem_cons.mp he' with rfl | he'
        · exact hfirst
        · exact Std.TransCmp.lt_trans hfirst (hback e' he')

/-- A key is found exactly if it has an entry. -/
theorem Increasing.find?_eq_some_iff
    (h : ix.Increasing) {k : TransitionKey} {e : KeyedTransitions} :
    ix.find? k = some e ↔ e ∈ ix.entries ∧ e.key = k := by
  obtain ⟨front, back, hentries, -, hfront, hback⟩ := h.exists_split k
  rw [← Array.mem_toList_iff, hentries]
  constructor
  · intro hfound
    exact ⟨by simp [hfound], key_eq_of_find? hfound⟩
  · rintro ⟨hmem, rfl⟩
    simp only [List.mem_append, Option.mem_toList] at hmem
    rcases hmem with he | he | he
    · exact absurd rfl (TransitionKey.ne_of_order_lt (hfront e he))
    · exact he
    · exact absurd rfl (TransitionKey.ne_of_order_lt (hback e he))

end Search

/-! ## Adding a transition -/

theorem insertIdx_length_append {α : Type} (front back : List α) (a : α) :
    (front ++ back).insertIdx front.length a = front ++ a :: back := by
  induction front with
  | nil => rfl
  | cons b front ih => simp [ih]

section Addition

variable {ix : TransitionIndex}

/-- Adding a transition puts the grown group of its key between the entries below
the key and those above it. -/
theorem Increasing.exists_entries_add (h : ix.Increasing) (t : LocalTransition) :
    ∃ front back, ix.entries.toList = front ++ ((ix.find? t.key).toList ++ back) ∧
      (ix.add t).entries.toList = front ++ ⟨t.key, ix.lookup t.key ++ [t]⟩ :: back ∧
      (∀ e ∈ front, order e.key t.key = .lt) ∧ ∀ e ∈ back, order t.key e.key = .lt := by
  obtain ⟨front, back, hentries, hlength, hfront, hback⟩ := h.exists_split t.key
  refine ⟨front, back, hentries, ?_, hfront, hback⟩
  cases hfound : ix.find? t.key with
  | none =>
      rw [hfound] at hentries
      simp only [add, lookup, hfound, Array.toList_insertIdx, hentries, ← hlength]
      exact insertIdx_length_append front back _
  | some e =>
      rw [hfound] at hentries
      simp only [add, lookup, hfound, Array.toList_modify, hentries, ← hlength]
      simp [List.modify_eq_take_cons_drop, key_eq_of_find? hfound]

/-- One addition leaves the entries in strict order. -/
theorem Increasing.add (h : ix.Increasing) (t : LocalTransition) : (ix.add t).Increasing := by
  obtain ⟨front, back, hentries, hadded, hfront, hback⟩ := h.exists_entries_add t
  rw [Increasing, hentries, List.pairwise_append] at h
  rw [Increasing, hadded, List.pairwise_append]
  refine ⟨h.1, List.pairwise_cons.mpr ⟨hback, (List.pairwise_append.mp h.2.1).2.1⟩, ?_⟩
  intro e he e' he'
  rcases List.mem_cons.mp he' with rfl | he'
  · exact hfront e he
  · exact Std.TransCmp.lt_trans (hfront e he) (hback e' he')

/-- One addition grows the group of one key, and no other. -/
theorem Increasing.mem_add_iff (h : ix.Increasing) {t : LocalTransition} {e : KeyedTransitions} :
    e ∈ (ix.add t).entries ↔
      e = ⟨t.key, ix.lookup t.key ++ [t]⟩ ∨ e ∈ ix.entries ∧ e.key ≠ t.key := by
  obtain ⟨front, back, hentries, hadded, hfront, hback⟩ := h.exists_entries_add t
  have hbelow : ∀ e ∈ front, e.key ≠ t.key := fun e he =>
    TransitionKey.ne_of_order_lt (hfront e he)
  have habove : ∀ e ∈ back, e.key ≠ t.key := fun e he =>
    (TransitionKey.ne_of_order_lt (hback e he)).symm
  have hkey : ∀ e ∈ (ix.find? t.key).toList, e.key = t.key := fun e he =>
    key_eq_of_find? (Option.mem_toList.mp he)
  rw [← Array.mem_toList_iff, ← Array.mem_toList_iff, hentries, hadded]
  simp only [List.mem_append, List.mem_cons]
  constructor
  · rintro (he | rfl | he)
    · exact .inr ⟨.inl he, hbelow e he⟩
    · exact .inl rfl
    · exact .inr ⟨.inr (.inr he), habove e he⟩
  · rintro (rfl | ⟨he | he | he, hne⟩)
    · exact .inr (.inl rfl)
    · exact .inl he
    · exact absurd (hkey e he) hne
    · exact .inr (.inr he)

theorem Increasing.lookup_of_mem (h : ix.Increasing) {e : KeyedTransitions} (he : e ∈ ix.entries) :
    ix.lookup e.key = e.transitions := by
  simp only [lookup, h.find?_eq_some_iff.mpr ⟨he, rfl⟩]

theorem Increasing.lookup_eq_nil
    (h : ix.Increasing) {k : TransitionKey} (hk : ∀ e ∈ ix.entries, e.key ≠ k) :
    ix.lookup k = [] := by
  have hmissing : ix.find? k = none := by
    rw [Option.eq_none_iff_forall_ne_some]
    intro e hfound
    obtain ⟨he, hkey⟩ := h.find?_eq_some_iff.mp hfound
    exact hk e he hkey
  simp only [lookup, hmissing]

theorem Increasing.lookup_add (h : ix.Increasing) (t : LocalTransition) (k : TransitionKey) :
    (ix.add t).lookup k = if t.key = k then ix.lookup k ++ [t] else ix.lookup k := by
  split_ifs with hk
  · subst hk
    exact (h.add t).lookup_of_mem (h.mem_add_iff.mpr (.inl rfl))
  · by_cases hentry : ∃ e ∈ ix.entries, e.key = k
    · obtain ⟨e, he, rfl⟩ := hentry
      rw [h.lookup_of_mem he,
        (h.add t).lookup_of_mem (h.mem_add_iff.mpr (.inr ⟨he, Ne.symm hk⟩))]
    · have hnone : ∀ e ∈ ix.entries, e.key ≠ k := fun e he hkey => hentry ⟨e, he, hkey⟩
      rw [h.lookup_eq_nil hnone]
      refine (h.add t).lookup_eq_nil fun e he => ?_
      rcases h.mem_add_iff.mp he with rfl | ⟨he, -⟩
      · exact hk
      · exact hnone e he

end Addition

/-! ## All additions -/

section Additions

variable {ix : TransitionIndex} {ts : List LocalTransition}

theorem Increasing.foldl_add (h : ix.Increasing) (ts : List LocalTransition) :
    (ts.foldl TransitionIndex.add ix).Increasing := by
  induction ts generalizing ix with
  | nil => exact h
  | cons t rest ih => exact ih (h.add t)

theorem increasing_ofList (ts : List LocalTransition) : (ofList ts).Increasing :=
  increasing_empty.foldl_add ts

theorem Increasing.lookup_foldl_add
    (h : ix.Increasing) (ts : List LocalTransition) (k : TransitionKey) :
    (ts.foldl TransitionIndex.add ix).lookup k = ix.lookup k ++ ts.filter fun t => t.key = k := by
  induction ts generalizing ix with
  | nil => simp
  | cons t rest ih =>
      rw [List.foldl_cons, ih (h.add t), h.lookup_add]
      by_cases hk : t.key = k <;> simp [hk]

/-- The index finds the transitions of a key in declaration order. -/
theorem lookup_ofList (ts : List LocalTransition) (k : TransitionKey) :
    (ofList ts).lookup k = ts.filter fun t => t.key = k := by
  rw [ofList, increasing_empty.lookup_foldl_add]
  rfl

theorem Increasing.ne_nil_of_mem_foldl_add
    (h : ix.Increasing) (hix : ∀ e ∈ ix.entries, e.transitions ≠ []) :
    ∀ e ∈ (ts.foldl TransitionIndex.add ix).entries, e.transitions ≠ [] := by
  induction ts generalizing ix with
  | nil => exact hix
  | cons t rest ih =>
      refine ih (h.add t) fun e he => ?_
      rcases h.mem_add_iff.mp he with rfl | ⟨he, -⟩
      · exact List.append_ne_nil_of_right_ne_nil _ (List.cons_ne_nil t [])
      · exact hix e he

/-- The entries are the groups of all keys that occur. -/
theorem mem_entries_ofList {e : KeyedTransitions} :
    e ∈ (ofList ts).entries ↔
      e.transitions = ts.filter (fun t => t.key = e.key) ∧ e.transitions ≠ [] := by
  have hascend := increasing_ofList ts
  constructor
  · intro he
    rw [← lookup_ofList, hascend.lookup_of_mem he]
    exact ⟨rfl, increasing_empty.ne_nil_of_mem_foldl_add
      (fun e he => absurd he (Array.not_mem_empty e)) e he⟩
  · rintro ⟨hgroup, hne⟩
    rw [← lookup_ofList] at hgroup
    obtain ⟨e', he', hkey⟩ : ∃ e' ∈ (ofList ts).entries, e'.key = e.key := by
      by_contra hnone
      refine hne (hgroup.trans (hascend.lookup_eq_nil fun e' he' hkey => ?_))
      exact hnone ⟨e', he', hkey⟩
    have hsame : e'.transitions = e.transitions := by
      rw [hgroup, ← hkey, hascend.lookup_of_mem he']
    obtain ⟨k, group⟩ := e
    obtain ⟨k', group'⟩ := e'
    obtain rfl : k' = k := hkey
    obtain rfl : group' = group := hsame
    exact he'

end Additions

/-- Keys are totally ordered and agree up to the order of the co-occurring
actions; the index has one entry for each key that occurs, in the order of the
keys, and finds for a key the transitions that have it, in declaration order. -/
structure GroupsFaithfully (ts : List LocalTransition) : Prop where
  total : ∀ a b : TransitionKey, (order a b).isLE = true ∨ (order b a).isLE = true
  antisymm : ∀ a b : TransitionKey, (order a b).isLE = true → (order b a).isLE = true → a = b
  trans : ∀ a b c : TransitionKey, (order a b).isLE = true → (order b c).isLE = true →
    (order a c).isLE = true
  swap : ∀ a b : TransitionKey, order b a = (order a b).swap
  agrees_iff : ∀ action sync concurrent action' sync' concurrent',
    (TransitionKey.of action sync concurrent).agrees (.of action' sync' concurrent') = true ↔
      action = action' ∧ sync = sync' ∧ concurrent.Perm concurrent'
  increasing : (ofList ts).entries.toList.Pairwise fun e e' => order e.key e'.key = .lt
  entry_iff : ∀ e, e ∈ (ofList ts).entries ↔
    e.transitions = ts.filter (·.key.agrees e.key) ∧ e.transitions ≠ []
  lookup : ∀ k, (ofList ts).lookup k = ts.filter (·.key.agrees k)

theorem filter_agrees (ts : List LocalTransition) (k : TransitionKey) :
    ts.filter (·.key.agrees k) = ts.filter fun t => t.key = k := by
  refine List.filter_congr fun t _ => ?_
  rw [Bool.eq_iff_iff, TransitionKey.agrees_iff, decide_eq_true_iff]

/-- The index of any list of transitions groups them faithfully. -/
theorem groups_faithfully (ts : List LocalTransition) : GroupsFaithfully ts where
  total a b := by
    have hswap : order b a = (order a b).swap := Std.OrientedCmp.eq_swap
    rw [hswap]
    cases order a b <;> simp
  antisymm a b hab hba := Std.LawfulEqCmp.eq_of_compare (Std.OrientedCmp.isLE_antisymm hab hba)
  trans a b c := Std.TransCmp.isLE_trans
  swap a b := Std.OrientedCmp.eq_swap
  agrees_iff action sync concurrent action' sync' concurrent' :=
    TransitionKey.agrees_iff.trans TransitionKey.of_eq_of_iff
  increasing := increasing_ofList ts
  entry_iff e := by rw [filter_agrees, mem_entries_ofList]
  lookup k := by rw [filter_agrees, lookup_ofList]

end TransitionIndex

end Population
