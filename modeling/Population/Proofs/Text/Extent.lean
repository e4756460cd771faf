import Population.Proofs.Text.Decoding
import Population.Text.Word
import Mathlib.Data.List.Flatten

/-!
# The extent of texts

Decoding, trimming and cutting never make a text longer.  A line therefore
bounds the number of words that can be read from it, and with it the size of
every group of actions that a description can name.
-/

namespace Population.Text

theorem length_ofGlyphs_le_of_sublist
    {gs hs : List Glyph} (h : gs.Sublist hs) :
    (ofGlyphs gs).length ≤ (ofGlyphs hs).length :=
  (h.flatMap Glyph.bytes).length_le

/-- Each glyph takes at least one byte of the text. -/
theorem length_glyphs_le (t : Text) : (glyphs t).length ≤ t.length := by
  induction t using glyphs_induction with
  | nil => exact Nat.le_refl 0
  | step g rest hg ih =>
      have hbytes := List.length_pos_iff.mpr (bytes_ne_nil g)
      rw [hg, List.length_cons, List.length_append]
      omega

/-! ## Trimming and cutting -/

/-- Trimming does not lengthen a text. -/
theorem length_trim_le (t : Text) : t.trim.length ≤ t.length := by
  have hinner : ((glyphs t).dropWhile isBlankGlyph).Sublist (glyphs t) :=
    List.dropWhile_sublist _
  have houter :
      (((glyphs t).dropWhile isBlankGlyph).reverse.dropWhile isBlankGlyph).Sublist
        (glyphs t).reverse :=
    (List.dropWhile_sublist _).trans hinner.reverse
  have hall := length_ofGlyphs_le_of_sublist houter.reverse
  rw [List.reverse_reverse] at hall
  rwa [ofGlyphs_glyphs] at hall

/-- The runs of a state, the open run included when it is not empty. -/
def closeRun (state : Text × List Text) : List Text :=
  if state.1.isEmpty then state.2 else state.1 :: state.2

/-- Puts a glyph in front: a separator closes the open run. -/
def runStep (isSep : Glyph → Bool) (g : Glyph) (state : Text × List Text) :
    Text × List Text :=
  if isSep g then ([], closeRun state) else (g.bytes ++ state.1, state.2)

theorem runs_eq_closeRun_foldr (isSep : Glyph → Bool) (t : Text) :
    runs isSep t = closeRun ((glyphs t).foldr (runStep isSep) ([], [])) := rfl

theorem length_le_length_closeRun (state : Text × List Text) :
    state.2.length ≤ (closeRun state).length := by
  unfold closeRun
  split_ifs <;> simp

theorem length_closeRun_le (state : Text × List Text) :
    (closeRun state).length ≤ state.2.length + 1 := by
  unfold closeRun
  split_ifs <;> simp

/-- Each glyph adds at most one run. -/
theorem length_closeRun_foldr_le (isSep : Glyph → Bool) (gs : List Glyph) :
    (closeRun (gs.foldr (runStep isSep) ([], []))).length ≤ gs.length := by
  induction gs with
  | nil => simp [closeRun]
  | cons g gs ih =>
      rw [List.foldr_cons, List.length_cons]
      generalize gs.foldr (runStep isSep) ([], []) = state at ih ⊢
      by_cases hsep : isSep g = true
      · have hclosed : closeRun (runStep isSep g state) = closeRun state := by
          simp [runStep, hsep, closeRun]
        rw [hclosed]
        exact Nat.le_succ_of_le ih
      · have hopen : runStep isSep g state = (g.bytes ++ state.1, state.2) := by
          simp [runStep, hsep]
        rw [hopen]
        have hnew := length_closeRun_le (g.bytes ++ state.1, state.2)
        have hold := length_le_length_closeRun state
        simp only at hnew
        omega

/-- A text has at most as many words as bytes. -/
theorem length_words_le (t : Text) : t.words.length ≤ t.length := by
  rw [words, runs_eq_closeRun_foldr]
  exact Nat.le_trans (length_closeRun_foldr_le isBlankGlyph (glyphs t))
    (length_glyphs_le t)

/-- A piece between separators is no longer than the text. -/
theorem length_le_of_mem_split
    {sep : UInt8} {t piece : Text} (h : piece ∈ split sep t) :
    piece.length ≤ t.length := by
  induction t generalizing piece with
  | nil =>
      rw [split_nil, List.mem_singleton] at h
      simp [h]
  | cons b rest ih =>
      obtain ⟨first, others, hrest, hcons⟩ := split_cons sep b rest
      have hbound : ∀ p ∈ first :: others, p.length ≤ rest.length := by
        intro p hp
        exact ih (hrest ▸ hp)
      rw [hcons] at h
      split_ifs at h
      · rcases List.mem_cons.mp h with rfl | h
        · simp
        · exact Nat.le_succ_of_le (hbound piece h)
      · rcases List.mem_cons.mp h with rfl | h
        · simpa using hbound first (by simp)
        · exact Nat.le_succ_of_le (hbound piece (List.mem_cons_of_mem _ h))

end Population.Text
