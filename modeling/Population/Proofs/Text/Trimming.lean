import Population.Proofs.Text.Decimal
import Population.Proofs.Text.Decoding
import Population.Text.Word

/-!
# Trimming

Trimming cuts a text into white space, a core with no white space at its ends,
and white space again, and there is only one way to cut it so.  Since the core
may be any bytes at all, this rests on decoding being exact: a blank at the end
of a text is the last glyph, however broken the text in front of it is.  What a
printer pads with spaces and line ends is found again when the reader trims it.
-/

namespace Population.Text

/-- Code points of white space, and nothing else. -/
def IsWhite (t : Text) : Prop :=
  ∃ cs : List Char, (∀ c ∈ cs, isBlank c = true) ∧ t = cs.flatMap String.utf8EncodeChar

/-- No white space stands at the ends. -/
structure Tight (t : Text) : Prop where
  head : ∀ c rest, isBlank c = true → t ≠ String.utf8EncodeChar c ++ rest
  last : ∀ c rest, isBlank c = true → t ≠ rest ++ String.utf8EncodeChar c

/-- Whether a byte, taken as a character of its own, is white space. -/
def isBlankByte (b : UInt8) : Bool :=
  isBlank (Char.ofNat b.toNat)

/-- Nothing but spaces and line ends. -/
def IsPadding (t : Text) : Prop :=
  ∀ b ∈ t, b = byte ' ' ∨ b = byte '\n'

instance (t : Text) : Decidable (IsPadding t) :=
  List.decidableBAll (fun b => b = byte ' ' ∨ b = byte '\n') t

/-- A text of single-byte characters with no white space at its ends. -/
structure Bare (t : Text) : Prop where
  ascii : IsAscii t
  head : ∀ b ∈ t.head?, isBlankByte b = false
  last : ∀ b ∈ t.getLast?, isBlankByte b = false

/-! ## White space -/

section White

variable {w s t : Text} {c : Char} {b : UInt8}

theorem isWhite_nil : IsWhite [] :=
  ⟨[], by simp, rfl⟩

theorem IsWhite.cons (hc : isBlank c = true) (hw : IsWhite w) :
    IsWhite (String.utf8EncodeChar c ++ w) := by
  obtain ⟨cs, hcs, rfl⟩ := hw
  exact ⟨c :: cs, List.forall_mem_cons.mpr ⟨hc, hcs⟩, List.flatMap_cons.symm⟩

/-- White space that is not empty starts with a blank. -/
theorem IsWhite.exists_cons (hw : IsWhite w) (hne : w ≠ []) :
    ∃ c rest, isBlank c = true ∧ w = String.utf8EncodeChar c ++ rest := by
  obtain ⟨cs, hcs, rfl⟩ := hw
  cases cs with
  | nil => exact absurd rfl hne
  | cons c cs => exact ⟨c, _, hcs c List.mem_cons_self, List.flatMap_cons⟩

/-- White space that is not empty ends in a blank. -/
theorem IsWhite.exists_concat (hw : IsWhite w) (hne : w ≠ []) :
    ∃ c rest, isBlank c = true ∧ w = rest ++ String.utf8EncodeChar c := by
  obtain ⟨cs, hcs, rfl⟩ := hw
  obtain rfl | ⟨cs, c, rfl⟩ := cs.eq_nil_or_concat
  · exact absurd rfl hne
  · exact ⟨c, cs.flatMap String.utf8EncodeChar, hcs c (by simp), by simp⟩

/-- The only ASCII characters among white space are blanks. -/
theorem IsWhite.isBlankByte_of_mem (hw : IsWhite w) (hmem : b ∈ w) (hb : b < 0x80) :
    isBlankByte b = true := by
  obtain ⟨cs, hcs, rfl⟩ := hw
  obtain ⟨c, hc, hmem⟩ := List.mem_flatMap.mp hmem
  rw [isBlankByte, ← eq_ofNat_of_mem_utf8EncodeChar hb hmem]
  exact hcs c hc

theorem IsWhite.not_mem (hw : IsWhite w) (hb : b < 0x80 ∧ isBlankByte b = false) : b ∉ w := by
  intro hmem
  have hblank := hw.isBlankByte_of_mem hmem hb.1
  rw [hb.2] at hblank
  cases hblank

theorem IsWhite.glyphs_append (hw : IsWhite w) (t : Text) :
    glyphs (w ++ t) = glyphs w ++ glyphs t := by
  obtain ⟨cs, -, rfl⟩ := hw
  induction cs with
  | nil => rfl
  | cons c cs ih =>
      rw [List.flatMap_cons, List.append_assoc, glyphs_utf8EncodeChar_append,
        glyphs_utf8EncodeChar_append, ih, List.cons_append]

/-- White space decodes apart from what stands in front of it. -/
theorem IsWhite.append_glyphs (hw : IsWhite w) (t : Text) :
    glyphs (t ++ w) = glyphs t ++ glyphs w := by
  apply Text.glyphs_append
  intro b hb
  have hne : w ≠ [] := List.ne_nil_of_mem (List.mem_of_head? hb)
  obtain ⟨c, rest, -, rfl⟩ := hw.exists_cons hne
  obtain ⟨first, tail, hc, hfirst, -⟩ := exists_utf8EncodeChar_eq c
  rw [hc] at hb
  cases hb
  exact hfirst

theorem IsWhite.isBlankGlyph (hw : IsWhite w) : ∀ g ∈ glyphs w, isBlankGlyph g = true := by
  obtain ⟨cs, hcs, rfl⟩ := hw
  induction cs with
  | nil => exact fun g hg => absurd hg List.not_mem_nil
  | cons c cs ih =>
      obtain ⟨hc, hcs⟩ := List.forall_mem_cons.mp hcs
      rw [List.flatMap_cons, glyphs_utf8EncodeChar_append]
      exact List.forall_mem_cons.mpr ⟨hc, ih hcs⟩

/-- Blank glyphs stand for white space and are found in it again. -/
theorem isWhite_ofGlyphs {gs : List Glyph} (h : ∀ g ∈ gs, isBlankGlyph g = true) :
    IsWhite (ofGlyphs gs) ∧ glyphs (ofGlyphs gs) = gs := by
  induction gs with
  | nil => exact ⟨isWhite_nil, rfl⟩
  | cons g gs ih =>
      obtain ⟨hg, hgs⟩ := List.forall_mem_cons.mp h
      obtain ⟨hwhite, hglyphs⟩ := ih hgs
      cases g with
      | stray b => cases hg
      | scalar c =>
          refine ⟨hwhite.cons hg, ?_⟩
          rw [ofGlyphs_cons, Glyph.bytes, glyphs_utf8EncodeChar_append, hglyphs]

end White

/-! ## The core of a text -/

/-- A list without the elements at its ends for which `p` holds. -/
theorem dropWhile_ends
    {α : Type} {p : α → Bool} {left core right : List α} (hleft : ∀ a ∈ left, p a = true)
    (hright : ∀ a ∈ right, p a = true) (hhead : ∀ a ∈ core.head?, p a = false)
    (hlast : ∀ a ∈ core.getLast?, p a = false) :
    (((left ++ core ++ right).dropWhile p).reverse.dropWhile p).reverse = core := by
  have hstop : ∀ {xs : List α}, (∀ a ∈ xs.head?, p a = false) → xs.dropWhile p = xs := by
    intro xs hxs
    cases xs with
    | nil => rfl
    | cons a rest => rw [List.dropWhile_cons_of_neg (by simp [hxs a rfl])]
  have hright' : ∀ a ∈ right.reverse, p a = true :=
    fun a ha => hright a (List.mem_reverse.mp ha)
  rw [List.append_assoc, List.dropWhile_append_of_pos hleft]
  by_cases hempty : core = []
  · have hnone : (right ++ []).dropWhile p = [] := List.dropWhile_append_of_pos hright
    rw [List.append_nil] at hnone
    rw [hempty, List.nil_append, hnone]
    rfl
  · have hfirst : ∀ a ∈ (core ++ right).head?, p a = false := by
      rw [List.head?_append, List.head?_eq_some_head hempty, Option.some_or,
        ← List.head?_eq_some_head hempty]
      exact hhead
    rw [hstop hfirst, List.reverse_append, List.dropWhile_append_of_pos hright',
      hstop (by rwa [List.head?_reverse]), List.reverse_reverse]

theorem head?_dropWhile_eq_false {α : Type} (p : α → Bool) (xs : List α) :
    ∀ a ∈ (xs.dropWhile p).head?, p a = false := by
  intro a ha
  have h := List.head?_dropWhile_not p xs
  rwa [Option.mem_def.mp ha] at h

/-- What is left without those elements has other ones at its ends. -/
theorem exists_dropWhile_ends {α : Type} (p : α → Bool) (xs : List α) :
    ∃ left core right, ((xs.dropWhile p).reverse.dropWhile p).reverse = core ∧
      xs = left ++ core ++ right ∧ (∀ a ∈ left, p a = true) ∧ (∀ a ∈ right, p a = true) ∧
      (∀ a ∈ core.head?, p a = false) ∧ ∀ a ∈ core.getLast?, p a = false := by
  have hrest : xs.dropWhile p = ((xs.dropWhile p).reverse.dropWhile p).reverse ++
      ((xs.dropWhile p).reverse.takeWhile p).reverse := by
    rw [← List.reverse_append, List.takeWhile_append_dropWhile, List.reverse_reverse]
  refine ⟨xs.takeWhile p, _, ((xs.dropWhile p).reverse.takeWhile p).reverse, rfl, ?_,
    List.all_eq_true.mp List.all_takeWhile,
    fun a ha => List.all_eq_true.mp List.all_takeWhile a (List.mem_reverse.mp ha), ?_, ?_⟩
  · rw [List.append_assoc, ← hrest, List.takeWhile_append_dropWhile]
  · intro a ha
    apply head?_dropWhile_eq_false p xs
    rw [hrest, List.head?_append, Option.mem_def.mp ha]
    rfl
  · rw [List.getLast?_reverse]
    exact head?_dropWhile_eq_false p _

theorem Tight.head_glyphs {t : Text} (ht : Tight t) :
    ∀ g ∈ (glyphs t).head?, isBlankGlyph g = false := by
  intro g hg
  obtain ⟨gs, hgs⟩ := List.head?_eq_some_iff.mp hg
  cases g with
  | stray b => rfl
  | scalar c =>
      refine Bool.eq_false_iff.mpr fun hblank => ht.head c (ofGlyphs gs) hblank ?_
      rw [← ofGlyphs_glyphs t, hgs, ofGlyphs_cons, Glyph.bytes]

theorem Tight.last_glyphs {t : Text} (ht : Tight t) :
    ∀ g ∈ (glyphs t).getLast?, isBlankGlyph g = false := by
  intro g hg
  obtain ⟨gs, hgs⟩ := List.getLast?_eq_some_iff.mp hg
  cases g with
  | stray b => rfl
  | scalar c =>
      refine Bool.eq_false_iff.mpr fun hblank => ht.last c (ofGlyphs gs) hblank ?_
      rw [← ofGlyphs_glyphs t, hgs, ofGlyphs_append, ofGlyphs_cons, Glyph.bytes]
      exact congrArg _ (List.append_nil _)

theorem tight_of_glyphs {t : Text} (hhead : ∀ g ∈ (glyphs t).head?, isBlankGlyph g = false)
    (hlast : ∀ g ∈ (glyphs t).getLast?, isBlankGlyph g = false) : Tight t where
  head c rest hc ht := by
    have hblank : isBlank c = false :=
      hhead (.scalar c) (by simp [ht, glyphs_utf8EncodeChar_append])
    rw [hc] at hblank
    cases hblank
  last c rest hc ht := by
    have hwhite : IsWhite (String.utf8EncodeChar c) := by
      simpa using isWhite_nil.cons hc
    have hglyphs : glyphs (String.utf8EncodeChar c) = [.scalar c] := by
      have h := glyphs_utf8EncodeChar_append c []
      rwa [List.append_nil] at h
    have hblank : isBlank c = false :=
      hlast (.scalar c) (by simp [ht, hwhite.append_glyphs, hglyphs])
    rw [hc] at hblank
    cases hblank

/-- Trimming removes white space. -/
theorem trim_white
    {left core right : Text} (hleft : IsWhite left) (hcore : Tight core) (hright : IsWhite right) :
    trim (left ++ core ++ right) = core := by
  rw [trim, hright.append_glyphs, hleft.glyphs_append,
    dropWhile_ends hleft.isBlankGlyph hright.isBlankGlyph hcore.head_glyphs hcore.last_glyphs,
    ofGlyphs_glyphs]

theorem Tight.eq_nil_of_append {w t : Text} (h : Tight (w ++ t)) (hw : IsWhite w) : w = [] := by
  refine Decidable.byContradiction fun hne => ?_
  obtain ⟨c, rest, hc, rfl⟩ := hw.exists_cons hne
  exact h.head c (rest ++ t) hc (List.append_assoc _ _ _)

theorem Tight.eq_nil_of_append_right {w t : Text} (h : Tight (t ++ w)) (hw : IsWhite w) :
    w = [] := by
  refine Decidable.byContradiction fun hne => ?_
  obtain ⟨c, rest, hc, rfl⟩ := hw.exists_concat hne
  exact h.last c (t ++ rest) hc (List.append_assoc _ _ _).symm

/-- Trimming leaves a core with white space on both sides of it. -/
theorem exists_trim (t : Text) :
    ∃ left right, IsWhite left ∧ IsWhite right ∧ t = left ++ trim t ++ right ∧ Tight (trim t) := by
  obtain ⟨left, core, right, hcore, hglyphs, hleft, hright, hhead, hlast⟩ :=
    exists_dropWhile_ends isBlankGlyph (glyphs t)
  obtain ⟨hwhite, hleftGlyphs⟩ := isWhite_ofGlyphs hleft
  obtain ⟨hwhite', hrightGlyphs⟩ := isWhite_ofGlyphs hright
  have htrim : trim t = ofGlyphs core := congrArg ofGlyphs hcore
  have htext : t = ofGlyphs left ++ trim t ++ ofGlyphs right := by
    rw [htrim, ← ofGlyphs_append, ← ofGlyphs_append, ← hglyphs, ofGlyphs_glyphs]
  have hcoreGlyphs : glyphs (trim t) = core := by
    have h := congrArg glyphs htext
    rw [hwhite'.append_glyphs, hwhite.glyphs_append, hleftGlyphs, hrightGlyphs, hglyphs] at h
    exact (List.append_cancel_left (List.append_cancel_right h)).symm
  refine ⟨_, _, hwhite, hwhite', htext, tight_of_glyphs ?_ ?_⟩
  · rwa [hcoreGlyphs]
  · rwa [hcoreGlyphs]

/-- `core` is what is left of `t` without the white space around it. -/
def Strips (t core : Text) : Prop :=
  ∃ left right, IsWhite left ∧ IsWhite right ∧ t = left ++ core ++ right ∧ Tight core

theorem Strips.tight {t core : Text} (h : Strips t core) : Tight core := by
  obtain ⟨left, right, -, -, -, hcore⟩ := h
  exact hcore

/-- Trimming finds the core, and there is only one. -/
theorem trim_eq_iff {t core : Text} : trim t = core ↔ Strips t core := by
  constructor
  · rintro rfl
    exact exists_trim t
  · rintro ⟨left, right, hleft, hright, rfl, hcore⟩
    exact trim_white hleft hcore hright

theorem trim_tight {t : Text} (ht : Tight t) : trim t = t :=
  trim_eq_iff.mpr ⟨[], [], isWhite_nil, isWhite_nil, by simp, ht⟩

/-! ## Padding -/

theorem IsPadding.isWhite {t : Text} (h : IsPadding t) : IsWhite t := by
  induction t with
  | nil => exact isWhite_nil
  | cons b rest ih =>
      obtain ⟨hb, hrest⟩ := List.forall_mem_cons.mp h
      have hc : ∃ c, isBlank c = true ∧ String.utf8EncodeChar c = [b] := by
        rcases hb with rfl | rfl
        · exact ⟨' ', by decide, by decide⟩
        · exact ⟨'\n', by decide, by decide⟩
      obtain ⟨c, hblank, hc⟩ := hc
      have hwhite := (ih hrest).cons hblank
      rwa [hc] at hwhite

theorem IsPadding.ascii {t : Text} (h : IsPadding t) : IsAscii t := by
  intro b hb
  rcases h b hb with rfl | rfl <;> decide

theorem IsPadding.append {s t : Text} (hs : IsPadding s) (ht : IsPadding t) :
    IsPadding (s ++ t) := by
  intro b hb
  exact (List.mem_append.mp hb).elim (hs b) (ht b)

/-- Padding holds no other byte. -/
theorem IsPadding.not_mem {t : Text} (h : IsPadding t) {b : UInt8} (hblank : b ≠ byte ' ')
    (hend : b ≠ byte '\n') : b ∉ t := by
  intro hb
  exact (h b hb).elim hblank hend

/-- A text that starts and ends with visible ASCII characters is tight. -/
theorem tight_of_ends {t : Text} (hhead : ∀ b ∈ t.head?, b < 0x80 ∧ isBlankByte b = false)
    (hlast : ∀ b ∈ t.getLast?, b < 0x80 ∧ isBlankByte b = false) : Tight t := by
  -- An encoding at an end of the text holds the ASCII character there, and so is that character.
  have hvisible : ∀ {c : Char} {b : UInt8}, isBlank c = true → b ∈ String.utf8EncodeChar c →
      ¬(b < 0x80 ∧ isBlankByte b = false) := by
    intro c b hc hb hvisible
    rw [isBlankByte, ← eq_ofNat_of_mem_utf8EncodeChar hvisible.1 hb, hc] at hvisible
    cases hvisible.2
  constructor
  · intro c rest hc ht
    have hne : String.utf8EncodeChar c ≠ [] := bytes_ne_nil (.scalar c)
    refine hvisible hc (List.head_mem hne) (hhead _ ?_)
    rw [ht, List.head?_append, List.head?_eq_some_head hne]
    rfl
  · intro c rest hc ht
    have hne : String.utf8EncodeChar c ≠ [] := bytes_ne_nil (.scalar c)
    refine hvisible hc (List.getLast_mem hne) (hlast _ ?_)
    rw [ht, List.getLast?_append, List.getLast?_eq_some_getLast hne]
    rfl

theorem tight_nil : Tight [] :=
  tight_of_ends (by simp) (by simp)

theorem Bare.tight {t : Text} (h : Bare t) : Tight t :=
  tight_of_ends (fun b hb => ⟨h.ascii b (List.mem_of_head? hb), h.head b hb⟩)
    fun b hb => ⟨h.ascii b (List.mem_of_getLast? hb), h.last b hb⟩

theorem trim_bare {t : Text} (h : Bare t) : trim t = t :=
  trim_tight h.tight

/-! ## Texts without white space at their ends -/

theorem bare_of_forall {t : Text} (h : ∀ b ∈ t, b < 0x80 ∧ isBlankByte b = false) : Bare t where
  ascii b hb := (h b hb).1
  head b hb := (h b (List.mem_of_head? hb)).2
  last b hb := (h b (List.mem_of_getLast? hb)).2

/-- What stands between two such texts does not matter. -/
theorem Bare.enclose
    {first middle final : Text} (hfirst : Bare first) (hfirst_ne : first ≠ [])
    (hmiddle : IsAscii middle) (hfinal : Bare final) (hfinal_ne : final ≠ []) :
    Bare (first ++ middle ++ final) where
  ascii := (hfirst.ascii.append hmiddle).append hfinal.ascii
  head b hb := by
    obtain ⟨a, rest, rfl⟩ := List.exists_cons_of_ne_nil hfirst_ne
    exact hfirst.head b hb
  last b hb := by
    rw [List.getLast?_append, List.getLast?_eq_some_getLast hfinal_ne, Option.some_or] at hb
    exact hfinal.last b (by rwa [List.getLast?_eq_some_getLast hfinal_ne])

/-- What holds of the bytes of the first 256 numbers holds of every byte. -/
theorem forall_byte {P : UInt8 → Prop} (h : ∀ n : Fin 256, P (UInt8.ofNat n.val)) (b : UInt8) :
    P b := by
  simpa using h ⟨b.toNat, b.toNat_lt⟩

theorem isBlankByte_of_isPart {b : UInt8} (h : Name.isPart b = true) :
    b < 0x80 ∧ isBlankByte b = false :=
  forall_byte (P := fun b => Name.isPart b = true → b < 0x80 ∧ isBlankByte b = false)
    (by decide +kernel) b h

theorem bare_of_isValid {name : Text} (h : Name.isValid name = true) : Bare name :=
  bare_of_forall fun _ hb => isBlankByte_of_isPart (Name.isPart_of_mem h hb)

theorem IsLiteral.bare {t : Text} {v : Int64} (h : IsLiteral t v) : Bare t := by
  apply bare_of_forall
  intro b hb
  rcases h.mem hb with rfl | rfl | hdigit
  · decide
  · decide
  · exact isBlankByte_of_isPart (Bool.or_eq_true_iff.mpr (.inr hdigit))

theorem bare_ofInt64 (v : Int64) : Bare (ofInt64 v) :=
  (isLiteral_ofInt64 v).bare

end Population.Text
