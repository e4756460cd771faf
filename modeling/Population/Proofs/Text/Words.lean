import Population.Proofs.Text.Extent
import Population.Proofs.Text.Separated
import Population.Proofs.Text.Trimming

/-!
# Words

A reader that splits a text into words finds the words again that were written
with separators between them.  Words and separators are told apart byte by byte,
since both consist of single-byte characters.
-/

namespace Population.Text

/-- Whether a byte, taken as a character of its own, separates words. -/
def separates (isSep : Glyph → Bool) (b : UInt8) : Bool :=
  isSep (.scalar (Char.ofNat b.toNat))

/-- Single-byte characters, all of them separators, at least one. -/
structure IsGap (isSep : Glyph → Bool) (t : Text) : Prop where
  ne_nil : t ≠ []
  ascii : IsAscii t
  sep : ∀ b ∈ t, separates isSep b = true

/-- Single-byte characters, none of them a separator, at least one. -/
structure IsWord (isSep : Glyph → Bool) (t : Text) : Prop where
  ne_nil : t ≠ []
  ascii : IsAscii t
  inner : ∀ b ∈ t, separates isSep b = false

section Runs

variable {isSep : Glyph → Bool} {t : Text}

/-- The open run and the finished ones, as the glyphs of the text leave them. -/
def runState (isSep : Glyph → Bool) (t : Text) : Text × List Text :=
  (glyphs t).foldr (runStep isSep) ([], [])

theorem runs_eq_closeRun (isSep : Glyph → Bool) (t : Text) :
    runs isSep t = closeRun (runState isSep t) :=
  rfl

theorem runState_cons {b : UInt8} (h : IsAscii (b :: t)) :
    runState isSep (b :: t) =
      if separates isSep b then ([], runs isSep t)
      else (b :: (runState isSep t).1, (runState isSep t).2) := by
  obtain ⟨hb, ht⟩ := List.forall_mem_cons.mp h
  have hglyphs : glyphs (b :: t) = .scalar (Char.ofNat b.toNat) :: glyphs t := by
    rw [glyphs_ascii h, glyphs_ascii ht, List.map_cons]
  rw [runState, hglyphs, List.foldr_cons, runStep, bytes_scalar_ascii hb]
  rfl

theorem runs_cons_of_sep {b : UInt8} (hb : separates isSep b = true) (h : IsAscii (b :: t)) :
    runs isSep (b :: t) = runs isSep t := by
  rw [runs_eq_closeRun, runState_cons h, if_pos hb]
  rfl

/-- Separators in front start no run. -/
theorem runs_gap_append {gap : Text} (hgap : ∀ b ∈ gap, separates isSep b = true)
    (h : IsAscii (gap ++ t)) : runs isSep (gap ++ t) = runs isSep t := by
  induction gap with
  | nil => rfl
  | cons b rest ih =>
      obtain ⟨hb, hrest⟩ := List.forall_mem_cons.mp hgap
      have htail : IsAscii (rest ++ t) := fun c hc => h c (List.mem_cons_of_mem b hc)
      exact (runs_cons_of_sep hb h).trans (ih hrest htail)

/-- A text that starts with a separator, or is empty, leaves no open run. -/
theorem runState_of_head (ht : IsAscii t) (hnext : ∀ b ∈ t.head?, separates isSep b = true) :
    runState isSep t = ([], runs isSep t) := by
  cases t with
  | nil => rfl
  | cons b rest =>
      have hb : separates isSep b = true := hnext b rfl
      rw [runs_cons_of_sep hb ht, runState_cons ht, if_pos hb]

theorem runState_append {piece : Text} (hpiece : IsAscii piece)
    (hinner : ∀ b ∈ piece, separates isSep b = false) (ht : IsAscii t) :
    runState isSep (piece ++ t) = (piece ++ (runState isSep t).1, (runState isSep t).2) := by
  induction piece with
  | nil => rfl
  | cons b rest ih =>
      obtain ⟨hb, hrest⟩ := List.forall_mem_cons.mp hinner
      obtain ⟨-, hascii⟩ := List.forall_mem_cons.mp hpiece
      have hall : IsAscii (b :: (rest ++ t)) := hpiece.append ht
      rw [List.cons_append, runState_cons hall, hb, ih hascii hrest]
      rfl

/-- A word is the first run when a separator or the end follows. -/
theorem runs_word_append {word : Text} (hword : IsWord isSep word) (ht : IsAscii t)
    (hnext : ∀ b ∈ t.head?, separates isSep b = true) :
    runs isSep (word ++ t) = word :: runs isSep t := by
  have hstate : runState isSep (word ++ t) = (word, runs isSep t) := by
    rw [runState_append hword.ascii hword.inner ht, runState_of_head ht hnext, List.append_nil]
  rw [runs_eq_closeRun, hstate, closeRun, if_neg]
  simpa using hword.ne_nil

variable {gap : Text} {ws : List Text}

theorem isAscii_flatMap (hgap : IsAscii gap) (hws : ∀ w ∈ ws, IsAscii w) :
    IsAscii (ws.flatMap (gap ++ ·)) := by
  intro b hb
  obtain ⟨w, hw, hb⟩ := List.mem_flatMap.mp hb
  exact (List.mem_append.mp hb).elim (hgap b) (hws w hw b)

theorem runs_flatMap (hgap : IsGap isSep gap) (hws : ∀ w ∈ ws, IsWord isSep w) :
    runs isSep (ws.flatMap (gap ++ ·)) = ws := by
  induction ws with
  | nil => rfl
  | cons w rest ih =>
      obtain ⟨hw, hrest⟩ := List.forall_mem_cons.mp hws
      have htail : IsAscii (rest.flatMap (gap ++ ·)) :=
        isAscii_flatMap hgap.ascii fun v hv => (hrest v hv).ascii
      have hnext : ∀ b ∈ (rest.flatMap (gap ++ ·)).head?, separates isSep b = true := by
        cases rest with
        | nil => simp
        | cons v others =>
            obtain ⟨c, cs, rfl⟩ := List.exists_cons_of_ne_nil hgap.ne_nil
            simpa using hgap.sep c List.mem_cons_self
      rw [List.flatMap_cons, List.append_assoc,
        runs_gap_append hgap.sep (hgap.ascii.append (hw.ascii.append htail)),
        runs_word_append hw htail hnext, ih hrest]

/-- The words of a text that joins words are the words. -/
theorem runs_join (hgap : IsGap isSep gap) (hws : ∀ w ∈ ws, IsWord isSep w) :
    runs isSep (join gap ws) = ws := by
  cases ws with
  | nil => rfl
  | cons w rest =>
      -- A gap in front changes nothing and makes all words look alike.
      have hascii : IsAscii ((w :: rest).flatMap (gap ++ ·)) :=
        isAscii_flatMap hgap.ascii fun v hv => (hws v hv).ascii
      have hfront : (w :: rest).flatMap (gap ++ ·) = gap ++ join gap (w :: rest) := by
        rw [List.flatMap_cons, join, List.append_assoc]
      rw [hfront] at hascii
      rw [← runs_gap_append hgap.sep hascii, ← hfront, runs_flatMap hgap hws]

end Runs

/-! ## Tokens -/

/-- The bytes of names, numbers and weights. -/
def isTokenByte (b : UInt8) : Bool :=
  Name.isPart b || b == byte ':' || b == byte '-'

/-- At least one byte, and all of them those of names, numbers and weights. -/
structure IsToken (t : Text) : Prop where
  ne_nil : t ≠ []
  inner : ∀ b ∈ t, isTokenByte b = true

theorem isToken_of_isValid {name : Text} (h : Name.isValid name = true) : IsToken name where
  ne_nil := Name.ne_nil_of_isValid h
  inner b hb := by simp [isTokenByte, Name.isPart_of_mem h hb]

theorem isToken_ofInt64 (v : Int64) : IsToken (ofInt64 v) where
  ne_nil := ofInt64_ne_nil v
  inner b hb := by
    rcases mem_ofInt hb with rfl | hdigit
    · decide
    · have hpart : Name.isPart b = true := Bool.or_eq_true_iff.mpr (.inr hdigit)
      simp [isTokenByte, hpart]

theorem IsToken.append {s t : Text} (hs : IsToken s) (ht : IsToken t) : IsToken (s ++ t) where
  ne_nil := List.append_ne_nil_of_left_ne_nil hs.ne_nil t
  inner b hb := (List.mem_append.mp hb).elim (hs.inner b) (ht.inner b)

/-- Whether a glyph stands between the items of a list. -/
def isItemSep (g : Glyph) : Bool :=
  isBlankGlyph g || g == .scalar ','

theorem token_byte {b : UInt8} (h : isTokenByte b = true) :
    b < 0x80 ∧ separates isBlankGlyph b = false ∧ separates isItemSep b = false :=
  forall_byte
    (P := fun b => isTokenByte b = true →
      b < 0x80 ∧ separates isBlankGlyph b = false ∧ separates isItemSep b = false)
    (by decide +kernel) b h

section Tokens

variable {ts : List Text}

/-- A list written with commas is read item by item. -/
theorem items_join (hts : ∀ t ∈ ts, IsToken t) : items (join ", " ts) = ts := by
  refine runs_join ⟨by decide, by decide, List.all_eq_true.mp (by decide)⟩ ?_
  intro t ht
  exact ⟨(hts t ht).ne_nil, fun b hb => (token_byte ((hts t ht).inner b hb)).1,
    fun b hb => (token_byte ((hts t ht).inner b hb)).2.2⟩

/-- Words written with spaces are read word by word. -/
theorem words_join (hts : ∀ t ∈ ts, IsToken t) : words (join " " ts) = ts := by
  refine runs_join ⟨by decide, by decide, List.all_eq_true.mp (by decide)⟩ ?_
  intro t ht
  exact ⟨(hts t ht).ne_nil, fun b hb => (token_byte ((hts t ht).inner b hb)).1,
    fun b hb => (token_byte ((hts t ht).inner b hb)).2.1⟩

end Tokens

end Population.Text
