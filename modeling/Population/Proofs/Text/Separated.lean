import Population.Text.Basic

/-!
# Joining and splitting

Pieces that do not hold the separator are found again in the text that joins
them, and a text is cut at the first place where its separator can stand.
-/

namespace Population.Text

variable {sep : UInt8}

theorem split_cons_of_ne {b : UInt8} (hb : b ≠ sep) {t piece : Text} {others : List Text}
    (h : split sep t = piece :: others) : split sep (b :: t) = (b :: piece) :: others := by
  obtain ⟨first, rest, hsplit, hcons⟩ := split_cons sep b t
  rw [hsplit] at h
  cases h
  rw [hcons, if_neg hb]

/-- A text without the separator is one piece. -/
theorem split_of_not_mem {t : Text} (h : sep ∉ t) : split sep t = [t] := by
  induction t with
  | nil => rfl
  | cons b rest ih =>
      rw [List.mem_cons, not_or] at h
      exact split_cons_of_ne (Ne.symm h.1) (ih h.2)

/-- The first separator ends the first piece. -/
theorem split_append_cons {piece : Text} (h : sep ∉ piece) (t : Text) :
    split sep (piece ++ sep :: t) = piece :: split sep t := by
  induction piece with
  | nil =>
      obtain ⟨first, rest, hsplit, hcons⟩ := split_cons sep sep t
      rw [List.nil_append, hcons, if_pos rfl, hsplit]
  | cons b rest ih =>
      rw [List.mem_cons, not_or] at h
      exact split_cons_of_ne (Ne.symm h.1) (ih h.2)

theorem join_cons_cons (s t u : Text) (rest : List Text) :
    join s (t :: u :: rest) = t ++ (s ++ join s (u :: rest)) := by
  simp [join]

theorem not_mem_join {b : UInt8} {s : Text} {pieces : List Text} (hs : b ∉ s)
    (hpieces : ∀ piece ∈ pieces, b ∉ piece) : b ∉ join s pieces := by
  cases pieces with
  | nil => simp [join]
  | cons t rest =>
      rw [join, List.mem_append, List.mem_flatMap]
      rintro (hmem | ⟨piece, hpiece, hmem⟩)
      · exact hpieces t List.mem_cons_self hmem
      · rcases List.mem_append.mp hmem with hmem | hmem
        · exact hs hmem
        · exact hpieces piece (List.mem_cons_of_mem t hpiece) hmem

/-- Splitting undoes joining. -/
theorem split_join {pieces : List Text} (hne : pieces ≠ [])
    (h : ∀ piece ∈ pieces, sep ∉ piece) : split sep (join [sep] pieces) = pieces := by
  induction pieces with
  | nil => exact absurd rfl hne
  | cons t rest ih =>
      have ht : sep ∉ t := h t List.mem_cons_self
      cases rest with
      | nil =>
          rw [show join [sep] [t] = t by simp [join]]
          exact split_of_not_mem ht
      | cons u us =>
          rw [join_cons_cons, List.singleton_append, split_append_cons ht,
            ih (List.cons_ne_nil u us) fun piece hpiece =>
              h piece (List.mem_cons_of_mem t hpiece)]

/-- Lists of pieces that are not empty and do not hold the separator are told
apart by the texts that join them. -/
theorem eq_of_join_eq
    {xs ys : List Text} (hxs : ∀ t ∈ xs, t ≠ [] ∧ sep ∉ t) (hys : ∀ t ∈ ys, t ≠ [] ∧ sep ∉ t)
    (h : join [sep] xs = join [sep] ys) : xs = ys := by
  have hempty : ∀ {zs : List Text}, (∀ t ∈ zs, t ≠ [] ∧ sep ∉ t) → join [sep] zs = [] →
      zs = [] := by
    intro zs hzs hjoin
    cases zs with
    | nil => rfl
    | cons t rest =>
        have hnil : t = [] := (List.append_eq_nil_iff.mp hjoin).1
        exact absurd hnil (hzs t List.mem_cons_self).1
  by_cases hx : xs = []
  · subst hx
    exact (hempty hys h.symm).symm
  by_cases hy : ys = []
  · subst hy
    exact hempty hxs h
  rw [← split_join hx fun t ht => (hxs t ht).2, h, split_join hy fun t ht => (hys t ht).2]

/-- What stands before the first separator is determined. -/
theorem append_cons_inj
    {a b s t : Text} (ha : sep ∉ a) (hb : sep ∉ b) (h : a ++ sep :: s = b ++ sep :: t) :
    a = b ∧ s = t := by
  have hpieces := congrArg (split sep) h
  rw [split_append_cons ha, split_append_cons hb] at hpieces
  have hab : a = b := (List.cons.inj hpieces).1
  subst hab
  exact ⟨rfl, (List.cons.inj (List.append_cancel_left h)).2⟩

/-- The first occurrence of the separator is where a text is cut. -/
theorem cut_append_cons {a : Text} (ha : sep ∉ a) (t : Text) :
    cut sep (a ++ sep :: t) = some (a, t) := by
  have hne : ∀ b ∈ a, (b != sep) = true := by
    intro b hb
    exact bne_iff_ne.mpr fun heq => ha (heq ▸ hb)
  have hdrop : (a ++ sep :: t).dropWhile (· != sep) = sep :: t := by
    rw [List.dropWhile_append_of_pos hne, List.dropWhile_cons_of_neg (by simp)]
  have htake : (a ++ sep :: t).takeWhile (· != sep) = a := by
    rw [List.takeWhile_append_of_pos hne, List.takeWhile_cons_of_neg (by simp), List.append_nil]
  simp [cut, hdrop, htake]

theorem cut_of_not_mem {t : Text} (h : sep ∉ t) : cut sep t = none := by
  have hne : ∀ b ∈ t, (b != sep) = true := by
    intro b hb
    exact bne_iff_ne.mpr fun heq => h (heq ▸ hb)
  have hdrop : (t ++ []).dropWhile (· != sep) = [] := List.dropWhile_append_of_pos hne
  rw [List.append_nil] at hdrop
  simp [cut, hdrop]

/-- A text is cut at the first separator and nowhere else. -/
theorem cut_eq_some_iff {t a b : Text} :
    cut sep t = some (a, b) ↔ sep ∉ a ∧ t = a ++ sep :: b := by
  constructor
  · intro h
    by_cases hmem : sep ∈ t
    · obtain ⟨a', b', rfl, ha'⟩ := List.eq_append_cons_of_mem hmem
      rw [cut_append_cons ha'] at h
      cases h
      exact ⟨ha', rfl⟩
    · rw [cut_of_not_mem hmem] at h
      cases h
  · rintro ⟨ha, rfl⟩
    exact cut_append_cons ha b

/-! ## Separators of several bytes -/

/-- A separator starts behind a text that does not hold its first byte. -/
theorem indexFrom_append
    {first : UInt8} {rest a : Text} (ha : first ∉ a) (skipped : Nat) (t : Text) :
    indexFrom (first :: rest) skipped (a ++ t) =
      indexFrom (first :: rest) (skipped + a.length) t := by
  induction a generalizing skipped with
  | nil => rfl
  | cons b others ih =>
      rw [List.mem_cons, not_or] at ha
      have hstart : (first :: rest).isPrefixOf (b :: (others ++ t)) = false := by
        simp [List.isPrefixOf, ha.1]
      rw [List.cons_append, indexFrom, hstart, if_neg Bool.false_ne_true, ih ha.2,
        List.length_cons, Nat.add_assoc, Nat.add_comm 1]

theorem indexFrom_of_not_mem
    {first : UInt8} {rest t : Text} (ht : first ∉ t) (skipped : Nat) :
    indexFrom (first :: rest) skipped t = none := by
  have h : indexFrom (first :: rest) skipped (t ++ []) =
      indexFrom (first :: rest) (skipped + t.length) [] := indexFrom_append ht skipped []
  rw [List.append_nil] at h
  rw [h]
  rfl

/-- A text is cut around a separator whose first byte does not occur before. -/
theorem cutAt_append
    {first : UInt8} {rest a : Text} (ha : first ∉ a) (t : Text) :
    cutAt (a ++ first :: (rest ++ t)) (first :: rest) = some (a, t) := by
  have hhere : (first :: rest).isPrefixOf (first :: (rest ++ t)) = true := by simp
  have hindex : indexFrom (first :: rest) 0 (a ++ first :: (rest ++ t)) = some a.length := by
    rw [indexFrom_append ha, Nat.zero_add, indexFrom, if_pos hhere]
  have hdrop : (a ++ first :: (rest ++ t)).drop (a.length + (first :: rest).length) = t := by
    rw [← List.drop_drop, List.drop_left, List.length_cons, List.drop_succ_cons, List.drop_left]
  rw [cutAt, hindex, Option.map_some, List.take_left, hdrop]

theorem cutAt_of_not_mem {first : UInt8} {rest t : Text} (ht : first ∉ t) :
    cutAt t (first :: rest) = none := by
  rw [cutAt, indexFrom_of_not_mem ht, Option.map_none]

/-- The first byte of a separator alone is no place to cut. -/
theorem cutAt_broken
    {first second : UInt8} {a t : Text} (ha : first ∉ a) (ht : first ∉ t)
    (hnext : t.head? ≠ some second) : cutAt (a ++ first :: t) [first, second] = none := by
  have hhere : [first, second].isPrefixOf (first :: t) = false := by
    cases t with
    | nil => simp
    | cons b rest =>
        have hne : second ≠ b := fun heq => hnext (heq ▸ rfl)
        simp [List.isPrefixOf, hne]
  rw [cutAt, indexFrom_append ha, indexFrom, hhere, if_neg Bool.false_ne_true,
    indexFrom_of_not_mem ht, Option.map_none]

theorem exists_of_indexFrom {s t : Text} {skipped n : Nat} (h : indexFrom s skipped t = some n) :
    ∃ a b, t = a ++ (s ++ b) ∧ n = skipped + a.length := by
  induction t generalizing skipped with
  | nil =>
      rw [indexFrom] at h
      split at h
      next hs =>
        cases h
        exact ⟨[], [], by rw [hs]; rfl, rfl⟩
      next => cases h
  | cons c rest ih =>
      rw [indexFrom] at h
      split at h
      next hhere =>
        cases h
        obtain ⟨b, hb⟩ := List.isPrefixOf_iff_prefix.mp hhere
        exact ⟨[], b, hb.symm, rfl⟩
      next =>
        obtain ⟨a, b, rfl, hn⟩ := ih h
        refine ⟨c :: a, b, rfl, ?_⟩
        rw [hn, List.length_cons]
        omega

/-- A text is put together again from the sides of a cut. -/
theorem eq_append_of_cutAt {s t a b : Text} (h : cutAt t s = some (a, b)) : t = a ++ (s ++ b) := by
  obtain ⟨n, hn, hsides⟩ := Option.map_eq_some_iff.mp h
  obtain ⟨a', b', rfl, rfl⟩ := exists_of_indexFrom hn
  obtain ⟨rfl, rfl⟩ := Prod.mk.inj hsides
  rw [Nat.zero_add, List.take_left, ← List.drop_drop, List.drop_left, List.drop_left]

/-! ## Splitting at two bytes -/

variable {first second : UInt8}

theorem splitPairFrom_cons_of_ne
    {b : UInt8} (hb : b ≠ first) (piece : Text) (pieces : List Text) (t : Text) :
    splitPairFrom first second piece pieces (b :: t) =
      splitPairFrom first second (b :: piece) pieces t := by
  cases t with
  | nil => rfl
  | cons c rest => rw [splitPairFrom, if_neg fun h => hb h.1]

theorem splitPairFrom_append
    {a : Text} (ha : first ∉ a) (piece : Text) (pieces : List Text) (t : Text) :
    splitPairFrom first second piece pieces (a ++ t) =
      splitPairFrom first second (a.reverse ++ piece) pieces t := by
  induction a generalizing piece with
  | nil => rfl
  | cons b rest ih =>
      rw [List.mem_cons, not_or] at ha
      rw [List.cons_append, splitPairFrom_cons_of_ne (Ne.symm ha.1), ih ha.2, List.reverse_cons,
        List.append_assoc, List.singleton_append]

/-- Pieces that are finished stay in front. -/
theorem splitPairFrom_append_pieces
    (piece : Text) (pieces earlier : List Text) (t : Text) :
    splitPairFrom first second piece (pieces ++ earlier) t =
      earlier.reverse ++ splitPairFrom first second piece pieces t := by
  fun_induction splitPairFrom first second piece pieces t with
  | case1 piece pieces => simp [splitPairFrom]
  | case2 piece pieces b => simp [splitPairFrom]
  | case3 piece pieces b c rest h ih =>
      rw [splitPairFrom, if_pos h, ← ih, List.cons_append]
  | case4 piece pieces b c rest h ih =>
      rw [splitPairFrom, if_neg h, ih]

/-- A text without the separator's first byte is one piece. -/
theorem splitPair_of_not_mem {t : Text} (ht : first ∉ t) :
    splitPair first second t = [t] := by
  have h : splitPairFrom first second [] [] (t ++ []) =
      splitPairFrom first second (t.reverse ++ []) [] [] := splitPairFrom_append ht [] [] []
  rw [List.append_nil, List.append_nil] at h
  rw [splitPair, h, splitPairFrom, List.reverse_reverse]
  rfl

/-- The first separator ends the first piece. -/
theorem splitPair_append {a : Text} (ha : first ∉ a) (t : Text) :
    splitPair first second (a ++ first :: second :: t) = a :: splitPair first second t := by
  have hcut : splitPairFrom first second (a.reverse ++ []) [] (first :: second :: t) =
      splitPairFrom first second [] [a] t := by
    rw [splitPairFrom, if_pos ⟨rfl, rfl⟩, List.append_nil, List.reverse_reverse]
  rw [splitPair, splitPairFrom_append ha, hcut]
  exact splitPairFrom_append_pieces [] [] [a] t

theorem join_concat_pair (s a b : Text) (pieces : List Text) :
    join s (pieces ++ [a, b]) = join s (pieces ++ [a ++ (s ++ b)]) := by
  cases pieces with
  | nil => simp [join]
  | cons t rest => simp [join, List.append_assoc]

theorem join_splitPairFrom (piece : Text) (pieces : List Text) (t : Text) :
    join [first, second] (splitPairFrom first second piece pieces t) =
      join [first, second] (pieces.reverse ++ [piece.reverse ++ t]) := by
  fun_induction splitPairFrom first second piece pieces t with
  | case1 piece pieces => simp
  | case2 piece pieces b => simp
  | case3 piece pieces b c rest h ih =>
      obtain ⟨rfl, rfl⟩ := h
      rw [ih, List.reverse_cons, List.append_assoc, List.reverse_nil, List.nil_append,
        List.singleton_append, join_concat_pair]
      rfl
  | case4 piece pieces b c rest h ih => rw [ih, List.reverse_cons, List.append_assoc,
        List.singleton_append]

/-- Splitting loses nothing but the separators. -/
theorem join_splitPair (t : Text) : join [first, second] (splitPair first second t) = t := by
  rw [splitPair, join_splitPairFrom]
  simp [join]

/-- Splitting undoes joining. -/
theorem splitPair_join {pieces : List Text} (hne : pieces ≠ [])
    (h : ∀ piece ∈ pieces, first ∉ piece) :
    splitPair first second (join [first, second] pieces) = pieces := by
  induction pieces with
  | nil => exact absurd rfl hne
  | cons t rest ih =>
      obtain ⟨ht, hrest⟩ := List.forall_mem_cons.mp h
      cases rest with
      | nil =>
          rw [show join [first, second] [t] = t by simp [join]]
          exact splitPair_of_not_mem ht
      | cons u us =>
          rw [join_cons_cons, List.cons_append, List.cons_append, List.nil_append,
            splitPair_append ht, ih (List.cons_ne_nil u us) hrest]

end Population.Text
