import Population.Marking
import Mathlib.Algebra.Group.Int.Defs
import Mathlib.Data.List.Nodup
import Mathlib.Tactic.ByContra

/-!
# Markings as functions

A marking is read as a function from names to integers together with the list
of names that it mentions.  Entries are kept in strict order, so these two
determine the marking.
-/

namespace Population.Marking

/-- The value of a counter as an integer. -/
def value (m : Marking) (name : Text) : Int :=
  (m.get name).toInt

/-- The counters that the marking mentions, in byte order. -/
def domain (m : Marking) : List Text :=
  m.entries.map (·.1)

theorem get_eq_iff_value_eq {a b : Marking} {n k : Text} :
    a.get n = b.get k ↔ a.value n = b.value k :=
  Int64.toInt_inj.symm

/-! ## Names -/

/-- The names in natural order are the names that are mentioned. -/
theorem names_perm_domain (m : Marking) : m.names.Perm m.domain :=
  Text.sortBy_perm _ _

theorem domain_ordered (m : Marking) :
    m.domain.Pairwise fun a b => compare a b = .lt :=
  List.pairwise_map.mpr m.ordered

theorem nodup_of_ordered
    {α : Type} (name : α → Text) {xs : List α}
    (h : xs.Pairwise fun a b => compare (name a) (name b) = .lt) : xs.Nodup := by
  refine h.imp ?_
  rintro a _ hlt rfl
  simp at hlt

theorem domain_nodup (m : Marking) : m.domain.Nodup :=
  nodup_of_ordered id m.domain_ordered

/-- What is in strict order of names is determined by its members. -/
theorem eq_of_ordered
    {α : Type} (name : α → Text) {xs ys : List α}
    (hxs : xs.Pairwise fun a b => compare (name a) (name b) = .lt)
    (hys : ys.Pairwise fun a b => compare (name a) (name b) = .lt)
    (hmem : ∀ x, x ∈ xs ↔ x ∈ ys) : xs = ys := by
  have hperm : xs.Perm ys :=
    (List.perm_ext_iff_of_nodup (nodup_of_ordered name hxs) (nodup_of_ordered name hys)).mpr hmem
  refine List.Perm.eq_of_pairwise ?_ hxs hys hperm
  intro x y _ _ hxy hyx
  exact absurd (Std.TransCmp.lt_trans hxy hyx) (by simp)

/-- In a list without repeated names an entry is found under its name. -/
theorem lookup_of_mem
    {es : List (Text × Int64)} {n : Text} {v : Int64}
    (hnodup : (es.map (·.1)).Nodup) (h : (n, v) ∈ es) : es.lookup n = some v := by
  induction es with
  | nil => simp at h
  | cons e rest ih =>
      obtain ⟨k, w⟩ := e
      rw [List.map_cons, List.nodup_cons] at hnodup
      rcases List.mem_cons.mp h with heq | hrest
      · cases heq
        simp
      · have hne : n ≠ k := by
          rintro rfl
          exact hnodup.1 (List.mem_map.mpr ⟨(n, v), hrest, rfl⟩)
        rw [List.lookup_cons, beq_eq_false_iff_ne.mpr hne]
        exact ih hnodup.2 hrest

/-- An entry holds the value that the marking gives to its name. -/
theorem get_of_mem_entries {m : Marking} {n : Text} {v : Int64}
    (h : (n, v) ∈ m.entries) : m.get n = v := by
  rw [get, lookup_of_mem m.domain_nodup h, Option.getD_some]

theorem mem_entries_of_mem_domain {m : Marking} {n : Text} (h : n ∈ m.domain) :
    (n, m.get n) ∈ m.entries := by
  obtain ⟨⟨k, v⟩, hmem, rfl⟩ := List.mem_map.mp h
  rwa [get_of_mem_entries hmem]

theorem lookup_of_not_mem
    {es : List (Text × Int64)} {n : Text} (h : n ∉ es.map (·.1)) :
    es.lookup n = none := by
  rw [List.lookup_eq_none_iff]
  rintro ⟨k, v⟩ hmem
  have hne : n ≠ k := by
    rintro rfl
    exact h (List.mem_map.mpr ⟨(n, v), hmem, rfl⟩)
  simpa using hne

/-- A counter that is not mentioned reads as zero. -/
theorem get_of_not_mem_domain {m : Marking} {n : Text} (h : n ∉ m.domain) :
    m.get n = 0 := by
  rw [get, lookup_of_not_mem h, Option.getD_none]

theorem value_of_not_mem_domain {m : Marking} {n : Text} (h : n ∉ m.domain) :
    m.value n = 0 := by
  rw [value, get_of_not_mem_domain h]
  rfl

/-- The entries are the mentioned names with their values. -/
theorem entries_eq_map (m : Marking) :
    m.entries = m.domain.map fun n => (n, m.get n) := by
  rw [domain, List.map_map]
  symm
  calc
    m.entries.map ((fun n => (n, m.get n)) ∘ (·.1)) = m.entries.map id := by
      apply List.map_congr_left
      rintro ⟨k, v⟩ hmem
      simp [get_of_mem_entries hmem]
    _ = m.entries := List.map_id _

/-- A marking is determined by the names it mentions and their values. -/
theorem ext_of_domain {a b : Marking}
    (hdomain : ∀ n, n ∈ a.domain ↔ n ∈ b.domain)
    (hget : ∀ n, a.get n = b.get n) : a = b := by
  have hnames : a.domain = b.domain :=
    eq_of_ordered id a.domain_ordered b.domain_ordered hdomain
  have hentries : a.entries = b.entries := by
    rw [a.entries_eq_map, b.entries_eq_map, hnames]
    apply List.map_congr_left
    intro n _
    rw [hget n]
  cases a
  cases b
  simpa using hentries

/-! ## Writing -/

theorem mem_names_setEntry
    {name n : Text} {v : Int64} {es : List (Text × Int64)} :
    n ∈ (setEntry name v es).map (·.1) ↔ n = name ∨ n ∈ es.map (·.1) := by
  induction es with
  | nil => simp [setEntry]
  | cons e rest ih =>
      obtain ⟨k, w⟩ := e
      cases hc : compare name k with
      | lt => simp [setEntry, hc]
      | eq =>
          have hk : name = k := Std.LawfulEqCmp.eq_of_compare hc
          simp [setEntry, hk]
      | gt =>
          simp only [setEntry, hc, List.map_cons, List.mem_cons, ih]
          tauto

theorem mem_domain_set {m : Marking} {name n : Text} {v : Int64} :
    n ∈ (m.set name v).domain ↔ n = name ∨ n ∈ m.domain :=
  mem_names_setEntry

theorem mem_domain_add {m : Marking} {name n : Text} {delta : Int64} :
    n ∈ (m.add name delta).domain ↔ n = name ∨ n ∈ m.domain :=
  mem_domain_set

@[simp]
theorem get_add (m : Marking) (name n : Text) (delta : Int64) :
    (m.add name delta).get n = if n = name then m.get name + delta else m.get n :=
  get_set m name n (m.get name + delta)

theorem mem_domain_foldl_set
    {es : List (Text × Int64)} {m : Marking} {n : Text} :
    n ∈ (es.foldl (fun m e => m.set e.1 e.2) m).domain ↔
      n ∈ m.domain ∨ n ∈ es.map (·.1) := by
  induction es generalizing m with
  | nil => simp
  | cons e rest ih =>
      rw [List.foldl_cons, ih, mem_domain_set, List.map_cons, List.mem_cons]
      tauto

theorem get_foldl_set
    {es : List (Text × Int64)} (hnodup : (es.map (·.1)).Nodup) (m : Marking) (n : Text) :
    (es.foldl (fun m e => m.set e.1 e.2) m).get n = (es.lookup n).getD (m.get n) := by
  induction es generalizing m with
  | nil => simp
  | cons e rest ih =>
      obtain ⟨k, v⟩ := e
      rw [List.map_cons, List.nodup_cons] at hnodup
      rw [List.foldl_cons, ih hnodup.2, get_set]
      by_cases hk : n = k
      · subst hk
        rw [lookup_of_not_mem hnodup.1]
        simp
      · rw [List.lookup_cons, beq_eq_false_iff_ne.mpr hk, if_neg hk]

/-- The marking of a list mentions the names of the list. -/
theorem mem_domain_ofList {es : List (Text × Int64)} {n : Text} :
    n ∈ (ofList es).domain ↔ n ∈ es.map (·.1) := by
  have hempty : n ∉ empty.domain := by simp [empty, domain]
  rw [ofList, mem_domain_foldl_set]
  simp [hempty]

theorem get_ofList
    {es : List (Text × Int64)} (hnodup : (es.map (·.1)).Nodup) (n : Text) :
    (ofList es).get n = (es.lookup n).getD 0 :=
  get_foldl_set hnodup empty n

/-! ## Sign and range -/

/-- No counter is negative exactly when none reads as negative. -/
theorem nonNegative_iff {m : Marking} :
    m.nonNegative = true ↔ ∀ n, 0 ≤ m.value n := by
  simp only [nonNegative, List.all_eq_true, decide_eq_true_eq]
  constructor
  · intro h n
    by_cases hn : n ∈ m.domain
    · exact Int64.le_iff_toInt_le.mp (h _ (mem_entries_of_mem_domain hn))
    · exact Int.le_of_eq (value_of_not_mem_domain hn).symm
  · rintro h ⟨n, v⟩ hmem
    have hn := h n
    rw [value, get_of_mem_entries hmem] at hn
    exact Int64.le_iff_toInt_le.mpr hn

theorem value_lt (m : Marking) (n : Text) : m.value n < 2 ^ 63 :=
  Int64.toInt_lt _

/-- The integers that fit into a counter. -/
def Fits (n : Int) : Prop :=
  -2 ^ 63 ≤ n ∧ n < 2 ^ 63

theorem toInt_add_of_fits {a b : Int64} (h : Fits (a.toInt + b.toInt)) :
    (a + b).toInt = a.toInt + b.toInt := by
  rw [Int64.toInt_add]
  obtain ⟨hlow, hhigh⟩ := h
  apply Int.bmod_eq_of_le <;> omega

end Population.Marking
