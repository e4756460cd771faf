import Population.Text.Glyph
import Mathlib.Tactic.SplitIfs

/-!
# Decoding

Decoding takes one glyph after the other from the front of a text and gives back
every byte that it has read.  It is exact: where the encoding of a code point
stands in a text, its glyph stands among the glyphs, whatever bytes come before
and after it.  The first byte of an encoding continues no other one, so a
sequence that breaks off in front of it stays broken.  A text without stray bytes
stays as it is when stray bytes are replaced.
-/

namespace Population

/-! ## Encodings -/

namespace Glyph

theorem toNat_val_ofNat {n : Nat} (h : n.isValidChar) : (Char.ofNat n).val.toNat = n := by
  rw [Char.ofNat, dif_pos h]
  rfl

theorem isTail_iff {b : UInt8} : isTail b = true ↔ 0x80 ≤ b.toNat ∧ b.toNat ≤ 0xBF := by
  simp [isTail, UInt8.le_iff_toNat_le]

theorem bytes_code2 {a b : UInt8} (ha : 0xC2 ≤ a.toNat ∧ a.toNat ≤ 0xDF) (hb : isTail b = true) :
    (scalar (code2 a b)).bytes = [a, b] := by
  rw [isTail_iff] at hb
  have hval : (code2 a b).val.toNat = a.toNat % 32 * 64 + b.toNat % 64 :=
    toNat_val_ofNat (.inl (by omega))
  rw [bytes, String.utf8EncodeChar, hval, if_neg (by omega), if_pos (by omega)]
  simp only [List.cons.injEq, ← UInt8.toNat_inj, UInt8.toNat_ofNat', and_true]
  omega

/-- The first two bytes of a three-byte encoding, as numbers. -/
theorem opensThree_iff {a b : UInt8} :
    opensThree a b = true ↔
      a.toNat = 0xE0 ∧ 0xA0 ≤ b.toNat ∧ b.toNat ≤ 0xBF ∨
      a.toNat = 0xED ∧ 0x80 ≤ b.toNat ∧ b.toNat ≤ 0x9F ∨
      a.toNat ≠ 0xED ∧ 0xE1 ≤ a.toNat ∧ a.toNat ≤ 0xEF ∧ 0x80 ≤ b.toNat ∧ b.toNat ≤ 0xBF := by
  simp only [opensThree, isTail, ← UInt8.toNat_inj, UInt8.le_iff_toNat_le]
  split_ifs with hfirst hlast
  · simp_all
  · simp_all
  · simp_all [and_assoc]

theorem bytes_code3 {a b c : UInt8} (hab : opensThree a b = true) (hc : isTail c = true) :
    (scalar (code3 a b c)).bytes = [a, b, c] := by
  rw [isTail_iff] at hc
  rw [opensThree_iff] at hab
  have hval : (code3 a b c).val.toNat =
      a.toNat % 16 * 4096 + b.toNat % 64 * 64 + c.toNat % 64 := by
    refine toNat_val_ofNat ?_
    rcases hab with hab | hab | hab
    · exact .inl (by omega)
    · exact .inl (by omega)
    · by_cases hsmall : a.toNat < 0xED
      · exact .inl (by omega)
      · exact .inr (by omega)
  rw [bytes, String.utf8EncodeChar, hval, if_neg (by omega), if_neg (by omega), if_pos (by omega)]
  simp only [List.cons.injEq, ← UInt8.toNat_inj, UInt8.toNat_ofNat', and_true]
  omega

/-- The first two bytes of a four-byte encoding, as numbers. -/
theorem opensFour_iff {a b : UInt8} :
    opensFour a b = true ↔
      a.toNat = 0xF0 ∧ 0x90 ≤ b.toNat ∧ b.toNat ≤ 0xBF ∨
      a.toNat = 0xF4 ∧ 0x80 ≤ b.toNat ∧ b.toNat ≤ 0x8F ∨
      0xF1 ≤ a.toNat ∧ a.toNat ≤ 0xF3 ∧ 0x80 ≤ b.toNat ∧ b.toNat ≤ 0xBF := by
  simp only [opensFour, isTail, ← UInt8.toNat_inj, UInt8.le_iff_toNat_le]
  split_ifs with hfirst hlast
  · simp_all
  · simp_all
  · simp_all [and_assoc]

theorem bytes_code4 {a b c d : UInt8} (hab : opensFour a b = true) (hc : isTail c = true)
    (hd : isTail d = true) : (scalar (code4 a b c d)).bytes = [a, b, c, d] := by
  rw [isTail_iff] at hc hd
  rw [opensFour_iff] at hab
  have hval : (code4 a b c d).val.toNat =
      a.toNat % 8 * 262144 + b.toNat % 64 * 4096 + c.toNat % 64 * 64 + d.toNat % 64 :=
    toNat_val_ofNat (.inr (by omega))
  rw [bytes, String.utf8EncodeChar, hval, if_neg (by omega), if_neg (by omega), if_neg (by omega)]
  simp only [List.cons.injEq, ← UInt8.toNat_inj, UInt8.toNat_ofNat', and_true]
  omega

end Glyph

namespace Text

open Glyph

variable {a b c d : UInt8}

/-- All bytes stand for characters of their own. -/
def IsAscii (t : Text) : Prop :=
  ∀ b ∈ t, b < 0x80

instance (t : Text) : Decidable (IsAscii t) :=
  List.decidableBAll (· < 0x80) t

theorem bytes_scalar_ascii {b : UInt8} (h : b < 0x80) :
    (Glyph.scalar (Char.ofNat b.toNat)).bytes = [b] := by
  have hall : ∀ n : Fin 128,
      (Glyph.scalar (Char.ofNat n.val)).bytes = [UInt8.ofNat n.val] := by
    decide
  have hn : b.toNat < 128 := UInt8.lt_iff_toNat_lt.mp h
  simpa using hall ⟨b.toNat, hn⟩

theorem toNat_ofNat_byte {n : Nat} (h : n < 256) : (UInt8.ofNat n).toNat = n := by
  rw [UInt8.toNat_ofNat']
  omega

theorem isTail_ofNat (n : Nat) : isTail (UInt8.ofNat (n % 64 + 128)) = true := by
  rw [isTail_iff, toNat_ofNat_byte (by omega)]
  omega

/-! The bytes that encode a code point of each length decode to it. -/

section Encoded

variable {v : Nat}

theorem opensTwo_encoded (hlow : 0x80 ≤ v) (hhigh : v < 0x800) :
    (0xC2 ≤ UInt8.ofNat (v / 64 % 32 + 192) && UInt8.ofNat (v / 64 % 32 + 192) ≤ 0xDF &&
      isTail (UInt8.ofNat (v % 64 + 128))) = true ∧
      code2 (UInt8.ofNat (v / 64 % 32 + 192)) (UInt8.ofNat (v % 64 + 128)) = Char.ofNat v := by
  have hfirst := toNat_ofNat_byte (n := v / 64 % 32 + 192) (by omega)
  have hsecond := toNat_ofNat_byte (n := v % 64 + 128) (by omega)
  constructor
  · simp only [Bool.and_eq_true, decide_eq_true_eq, UInt8.le_iff_toNat_le, isTail_ofNat, hfirst,
      and_true]
    exact ⟨show 0xC2 ≤ v / 64 % 32 + 192 by omega, show v / 64 % 32 + 192 ≤ 0xDF by omega⟩
  · rw [code2, hfirst, hsecond]
    exact congrArg Char.ofNat (by omega)

theorem opensThree_encoded (hlow : 0x800 ≤ v) (hhigh : v < 0x10000)
    (hvalid : v < 0xD800 ∨ 0xDFFF < v) :
    opensThree (UInt8.ofNat (v / 4096 % 16 + 224)) (UInt8.ofNat (v / 64 % 64 + 128)) = true ∧
      code3 (UInt8.ofNat (v / 4096 % 16 + 224)) (UInt8.ofNat (v / 64 % 64 + 128))
        (UInt8.ofNat (v % 64 + 128)) = Char.ofNat v := by
  have hfirst := toNat_ofNat_byte (n := v / 4096 % 16 + 224) (by omega)
  have hsecond := toNat_ofNat_byte (n := v / 64 % 64 + 128) (by omega)
  have hthird := toNat_ofNat_byte (n := v % 64 + 128) (by omega)
  constructor
  · rw [opensThree_iff, hfirst, hsecond]
    omega
  · rw [code3, hfirst, hsecond, hthird]
    exact congrArg Char.ofNat (by omega)

theorem opensFour_encoded (hlow : 0x10000 ≤ v) (hhigh : v < 0x110000) :
    opensFour (UInt8.ofNat (v / 262144 % 8 + 240)) (UInt8.ofNat (v / 4096 % 64 + 128)) = true ∧
      code4 (UInt8.ofNat (v / 262144 % 8 + 240)) (UInt8.ofNat (v / 4096 % 64 + 128))
        (UInt8.ofNat (v / 64 % 64 + 128)) (UInt8.ofNat (v % 64 + 128)) = Char.ofNat v := by
  have hfirst := toNat_ofNat_byte (n := v / 262144 % 8 + 240) (by omega)
  have hsecond := toNat_ofNat_byte (n := v / 4096 % 64 + 128) (by omega)
  have hthird := toNat_ofNat_byte (n := v / 64 % 64 + 128) (by omega)
  have hfourth := toNat_ofNat_byte (n := v % 64 + 128) (by omega)
  constructor
  · rw [opensFour_iff, hfirst, hsecond]
    omega
  · rw [code4, hfirst, hsecond, hthird, hfourth]
    exact congrArg Char.ofNat (by omega)

end Encoded

/-- The first byte of an encoding continues no encoding, and all others do. -/
theorem exists_utf8EncodeChar_eq (c : Char) :
    ∃ first tail, String.utf8EncodeChar c = first :: tail ∧ isTail first = false ∧
      ∀ b ∈ tail, isTail b = true := by
  have hlead : ∀ n, n < 0x80 ∨ 0xC0 ≤ n → n < 256 → isTail (UInt8.ofNat n) = false := by
    intro n hn hbyte
    rw [Bool.eq_false_iff, ne_eq, isTail_iff, toNat_ofNat_byte hbyte]
    omega
  have hvalid : c.val.toNat < 0xD800 ∨ 0xDFFF < c.val.toNat ∧ c.val.toNat < 0x110000 := c.valid
  rw [String.utf8EncodeChar]
  generalize c.val.toNat = v at hvalid
  split_ifs with hone htwo hthree
  · exact ⟨_, _, rfl, hlead _ (.inl (by omega)) (by omega), by simp⟩
  · exact ⟨_, _, rfl, hlead _ (.inr (by omega)) (by omega),
      List.forall_mem_singleton.mpr (isTail_ofNat _)⟩
  · exact ⟨_, _, rfl, hlead _ (.inr (by omega)) (by omega),
      List.forall_mem_cons.mpr ⟨isTail_ofNat _, List.forall_mem_singleton.mpr (isTail_ofNat _)⟩⟩
  · exact ⟨_, _, rfl, hlead _ (.inr (by omega)) (by omega),
      List.forall_mem_cons.mpr ⟨isTail_ofNat _, List.forall_mem_cons.mpr
        ⟨isTail_ofNat _, List.forall_mem_singleton.mpr (isTail_ofNat _)⟩⟩⟩

/-! ## One glyph -/

section Step

variable (done : List Glyph) (t : Text)

theorem glyphsFrom_one (ha : a < 0x80) :
    glyphsFrom done (a :: t) = glyphsFrom (scalar (Char.ofNat a.toNat) :: done) t := by
  cases t with
  | nil => simp only [glyphsFrom, if_pos ha]
  | cons b rest =>
      rw [glyphsFrom.eq_def done]
      exact if_pos ha

theorem glyphsFrom_two (hab : (0xC2 ≤ a && a ≤ 0xDF && isTail b) = true) :
    glyphsFrom done (a :: b :: t) = glyphsFrom (scalar (code2 a b) :: done) t := by
  have hone : ¬a < 0x80 := by
    simp only [Bool.and_eq_true, decide_eq_true_eq, UInt8.le_iff_toNat_le] at hab
    rw [UInt8.lt_iff_toNat_lt]
    exact Nat.not_lt.mpr (Nat.le_trans (by decide) hab.1.1)
  rw [glyphsFrom.eq_def done]
  simp only [if_neg hone, if_pos hab]

/-- Longer encodings start with larger bytes. -/
theorem not_opens_shorter (ha : 0xE0 ≤ a.toNat) :
    ¬a < 0x80 ∧ ¬(0xC2 ≤ a && a ≤ 0xDF && isTail b) = true := by
  simp only [Bool.and_eq_true, decide_eq_true_eq, UInt8.le_iff_toNat_le, UInt8.lt_iff_toNat_lt]
  exact ⟨Nat.not_lt.mpr (Nat.le_trans (by decide) ha),
    fun h => absurd (Nat.le_trans ha h.1.2) (by decide)⟩

theorem glyphsFrom_three (h : (opensThree a b && isTail c) = true) :
    glyphsFrom done (a :: b :: c :: t) = glyphsFrom (scalar (code3 a b c) :: done) t := by
  have ha : 0xE0 ≤ a.toNat := by
    have hab := opensThree_iff.mp (Bool.and_eq_true_iff.mp h).1
    omega
  obtain ⟨hone, htwo⟩ := not_opens_shorter (b := b) ha
  rw [glyphsFrom.eq_def done]
  simp only [if_neg hone, if_neg htwo, if_pos h]

theorem glyphsFrom_four (h : (opensFour a b && isTail c && isTail d) = true) :
    glyphsFrom done (a :: b :: c :: d :: t) = glyphsFrom (scalar (code4 a b c d) :: done) t := by
  have hab := h
  simp only [Bool.and_eq_true, opensFour_iff] at hab
  obtain ⟨hone, htwo⟩ := not_opens_shorter (a := a) (b := b) (by omega)
  have hthree : ¬(opensThree a b && isTail c) = true := by
    rw [Bool.and_eq_true, opensThree_iff]
    omega
  rw [glyphsFrom.eq_def done]
  simp only [if_neg hone, if_neg htwo, if_neg hthree, if_pos h]

end Step

/-- Decoding moves one glyph from the front of the text to the glyphs that are
done. -/
theorem exists_glyphsFrom_eq {t : Text} (ht : t ≠ []) :
    ∃ g rest, t = g.bytes ++ rest ∧ ∀ done, glyphsFrom done t = glyphsFrom (g :: done) rest := by
  obtain ⟨a, t, rfl⟩ := List.exists_cons_of_ne_nil ht
  by_cases hone : a < 0x80
  · exact ⟨scalar (Char.ofNat a.toNat), t, by rw [bytes_scalar_ascii hone, List.singleton_append],
      fun done => glyphsFrom_one done t hone⟩
  -- As long as no encoding is found, the first byte may turn out to be stray.
  match t with
  | [] => exact ⟨stray a, [], rfl, fun done => by simp only [glyphsFrom, if_neg hone]⟩
  | b :: t =>
    by_cases htwo : (0xC2 ≤ a && a ≤ 0xDF && isTail b) = true
    · have hab := htwo
      simp only [Bool.and_eq_true, decide_eq_true_eq, UInt8.le_iff_toNat_le] at hab
      exact ⟨scalar (code2 a b), t, by rw [bytes_code2 hab.1 hab.2]; rfl,
        fun done => glyphsFrom_two done t htwo⟩
    match t with
    | [] =>
      refine ⟨stray a, [b], rfl, fun done => ?_⟩
      rw [glyphsFrom.eq_def done]
      simp only [if_neg hone, if_neg htwo]
    | c :: t =>
      by_cases hthree : (opensThree a b && isTail c) = true
      · obtain ⟨hab, hc⟩ := Bool.and_eq_true_iff.mp hthree
        exact ⟨scalar (code3 a b c), t, by rw [bytes_code3 hab hc]; rfl,
          fun done => glyphsFrom_three done t hthree⟩
      match t with
      | [] =>
        refine ⟨stray a, [b, c], rfl, fun done => ?_⟩
        rw [glyphsFrom.eq_def done]
        simp only [if_neg hone, if_neg htwo, if_neg hthree]
      | d :: t =>
        by_cases hfour : (opensFour a b && isTail c && isTail d) = true
        · have hab := hfour
          simp only [Bool.and_eq_true] at hab
          exact ⟨scalar (code4 a b c d), t, by rw [bytes_code4 hab.1.1 hab.1.2 hab.2]; rfl,
            fun done => glyphsFrom_four done t hfour⟩
        · refine ⟨stray a, b :: c :: d :: t, rfl, fun done => ?_⟩
          rw [glyphsFrom.eq_def done]
          simp only [if_neg hone, if_neg htwo, if_neg hthree, if_neg hfour]

theorem bytes_ne_nil (g : Glyph) : g.bytes ≠ [] := by
  cases g with
  | stray b => exact List.cons_ne_nil b []
  | scalar c =>
      obtain ⟨first, tail, hc, -⟩ := exists_utf8EncodeChar_eq c
      rw [bytes, hc]
      exact List.cons_ne_nil first tail

/-- What holds of the empty text, and of a text with one more glyph in front, holds
of every text. -/
@[elab_as_elim]
theorem glyphsFrom_induction {motive : Text → Prop} (nil : motive [])
    (step : ∀ g rest, (∀ done, glyphsFrom done (g.bytes ++ rest) = glyphsFrom (g :: done) rest) →
      motive rest → motive (g.bytes ++ rest)) (t : Text) : motive t := by
  induction hn : t.length using Nat.strongRecOn generalizing t with
  | ind n ih =>
      by_cases ht : t = []
      · exact ht ▸ nil
      obtain ⟨g, rest, rfl, hstep⟩ := exists_glyphsFrom_eq ht
      have hlt : rest.length < n := by
        have hg := List.length_pos_iff.mpr (bytes_ne_nil g)
        rw [List.length_append] at hn
        omega
      exact step g rest hstep (ih _ hlt rest rfl)

/-- Glyphs that are done stay behind the others. -/
theorem glyphsFrom_eq_append (done : List Glyph) (t : Text) :
    glyphsFrom done t = glyphsFrom [] t ++ done := by
  induction t using glyphsFrom_induction generalizing done with
  | nil => rfl
  | step g rest hstep ih =>
      rw [hstep done, hstep [], ih (g :: done), ih [g], List.append_assoc, List.singleton_append]

/-! ## Whole texts -/

theorem glyphs_eq_cons {g : Glyph} {t rest : Text}
    (h : ∀ done, glyphsFrom done t = glyphsFrom (g :: done) rest) :
    glyphs t = g :: glyphs rest := by
  rw [glyphs, h, glyphsFrom_eq_append, List.reverse_append, List.reverse_singleton,
    List.singleton_append, glyphs]

@[elab_as_elim]
theorem glyphs_induction {motive : Text → Prop} (nil : motive [])
    (step : ∀ g rest, glyphs (g.bytes ++ rest) = g :: glyphs rest → motive rest →
      motive (g.bytes ++ rest)) (t : Text) : motive t :=
  glyphsFrom_induction nil (fun g rest h => step g rest (glyphs_eq_cons h)) t

theorem ofGlyphs_cons (g : Glyph) (gs : List Glyph) :
    ofGlyphs (g :: gs) = g.bytes ++ ofGlyphs gs := rfl

theorem ofGlyphs_append (gs hs : List Glyph) : ofGlyphs (gs ++ hs) = ofGlyphs gs ++ ofGlyphs hs :=
  List.flatMap_append

/-- Decoding loses no byte. -/
theorem ofGlyphs_glyphs (t : Text) : ofGlyphs (glyphs t) = t := by
  induction t using glyphs_induction with
  | nil => rfl
  | step g rest hg ih => rw [hg, ofGlyphs_cons, ih]

/-- A valid text has nothing to repair. -/
theorem repaired_of_isValid {t : Text} (h : isValid t = true) : repaired t = t := by
  rw [isValid, List.all_eq_true] at h
  calc repaired t
    _ = ofGlyphs (glyphs t) := by
      rw [repaired, chars, List.flatMap_map, ofGlyphs, List.flatMap_def, List.flatMap_def]
      congr 1
      refine List.map_congr_left fun g hg => ?_
      cases g with
      | scalar c => rfl
      | stray b => cases h _ hg
    _ = t := ofGlyphs_glyphs t

/-- A code point in front is the first glyph. -/
theorem glyphs_utf8EncodeChar_append (c : Char) (t : Text) :
    glyphs (String.utf8EncodeChar c ++ t) = .scalar c :: glyphs t := by
  apply glyphs_eq_cons
  intro done
  have hc : Char.ofNat c.val.toNat = c := Char.ofNat_toNat c
  have hvalid : c.val.toNat < 0xD800 ∨ 0xDFFF < c.val.toNat ∧ c.val.toNat < 0x110000 := c.valid
  rw [String.utf8EncodeChar]
  generalize c.val.toNat = v at hc hvalid
  split_ifs with hone htwo hthree
  · have ha : UInt8.ofNat v < 0x80 := by
      rw [UInt8.lt_iff_toNat_lt, toNat_ofNat_byte (by omega)]
      exact Nat.lt_succ_of_le hone
    have hcode := glyphsFrom_one done t ha
    rwa [toNat_ofNat_byte (by omega), hc] at hcode
  · obtain ⟨hopens, hcode⟩ := opensTwo_encoded (v := v) (by omega) (by omega)
    rw [hc] at hcode
    rw [← hcode]
    exact glyphsFrom_two done t hopens
  · obtain ⟨hopens, hcode⟩ := opensThree_encoded (v := v) (by omega) (by omega) (by omega)
    rw [hc] at hcode
    rw [← hcode]
    exact glyphsFrom_three done t (Bool.and_eq_true_iff.mpr ⟨hopens, isTail_ofNat v⟩)
  · obtain ⟨hopens, hcode⟩ := opensFour_encoded (v := v) (by omega) (by omega)
    rw [hc] at hcode
    rw [← hcode]
    exact glyphsFrom_four done t (by simp only [hopens, isTail_ofNat, Bool.and_self])

/-- An encoding does not go on into a text that starts with no continuation byte. -/
theorem exists_eq_utf8EncodeChar_append
    {c : Char} {s t rest : Text} (hs : s ≠ []) (ht : ∀ b ∈ t.head?, isTail b = false)
    (h : s ++ t = String.utf8EncodeChar c ++ rest) : ∃ u, s = String.utf8EncodeChar c ++ u := by
  obtain ⟨u, hc, hu⟩ | ⟨u, hu, -⟩ := List.append_eq_append_iff.mp h
  · cases u with
    | nil => exact ⟨[], by rw [hc, List.append_nil, List.append_nil]⟩
    | cons b u =>
        obtain ⟨first, tail, hfirst, -, htail⟩ := exists_utf8EncodeChar_eq c
        obtain ⟨a, s, rfl⟩ := List.exists_cons_of_ne_nil hs
        have hmem : b ∈ tail := by
          rw [hc] at hfirst
          rw [← (List.cons.inj hfirst).2]
          simp
        have hb := ht b (by rw [hu]; rfl)
        rw [htail b hmem] at hb
        cases hb
  · exact ⟨u, hu⟩

/-- A text decodes apart from what follows it, unless that goes on with a
continuation byte. -/
theorem glyphs_append {s t : Text} (ht : ∀ b ∈ t.head?, isTail b = false) :
    glyphs (s ++ t) = glyphs s ++ glyphs t := by
  induction s using glyphs_induction with
  | nil => rfl
  | step g rest hg ih =>
      rw [hg, List.cons_append, ← ih, List.append_assoc]
      cases g with
      | scalar c => exact glyphs_utf8EncodeChar_append c (rest ++ t)
      | stray a =>
          obtain ⟨g', rest', htext, hstep⟩ :=
            exists_glyphsFrom_eq (List.cons_ne_nil a (rest ++ t))
          have hglyphs := glyphs_eq_cons hstep
          cases g' with
          | stray a' =>
              obtain ⟨rfl, rfl⟩ : a = a' ∧ rest ++ t = rest' := List.cons.inj htext
              exact hglyphs
          -- An encoding would stand in the first text already, where the byte is stray.
          | scalar c =>
              rw [bytes] at htext
              obtain ⟨u, hu⟩ :=
                exists_eq_utf8EncodeChar_append (List.cons_ne_nil a rest) ht htext
              have hstray : glyphs (a :: rest) = .stray a :: glyphs rest := hg
              rw [hu, glyphs_utf8EncodeChar_append] at hstray
              cases (List.cons.inj hstray).1

/-- An encoding that holds an ASCII character is that character. -/
theorem eq_ofNat_of_mem_utf8EncodeChar {c : Char} {b : UInt8} (hb : b < 0x80)
    (hmem : b ∈ String.utf8EncodeChar c) : c = Char.ofNat b.toNat := by
  obtain ⟨first, tail, hc, -, htail⟩ := exists_utf8EncodeChar_eq c
  have hfirst : b = first := by
    rw [hc] at hmem
    refine (List.mem_cons.mp hmem).resolve_right fun hlater => ?_
    have hlarge := (isTail_iff.mp (htail b hlater)).1
    exact absurd (UInt8.lt_iff_toNat_lt.mp hb) (Nat.not_lt.mpr hlarge)
  have hglyphs := glyphs_utf8EncodeChar_append c []
  rw [List.append_nil, hc, ← hfirst, glyphs_eq_cons fun done => glyphsFrom_one done tail hb]
    at hglyphs
  exact (Glyph.scalar.inj (List.cons.inj hglyphs).1).symm

/-! ## Texts of single bytes -/

theorem IsAscii.append {s t : Text} (hs : IsAscii s) (ht : IsAscii t) : IsAscii (s ++ t) := by
  intro b hb
  exact (List.mem_append.mp hb).elim (hs b) (ht b)

theorem glyphs_ascii {t : Text} (h : IsAscii t) :
    glyphs t = t.map fun b => Glyph.scalar (Char.ofNat b.toNat) := by
  induction t with
  | nil => rfl
  | cons b rest ih =>
      obtain ⟨hb, hrest⟩ := List.forall_mem_cons.mp h
      rw [glyphs_eq_cons fun done => glyphsFrom_one done rest hb, ih hrest, List.map_cons]

end Text

end Population
