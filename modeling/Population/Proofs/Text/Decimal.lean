import Population.Text.Decimal
import Population.Text.Word

/-!
# Decimal numbers are unambiguous

A natural number is written in digits that read back as the number, and an
integer in digits after an optional minus sign.  So different numbers have
different texts, and a 64-bit integer is read back from its text.
-/

namespace Population.Text

theorem toNat_byte_of_isDigit {c : Char} (h : c.isDigit = true) :
    (byte c).toNat = c.toNat := by
  have hbound : c.toNat ≤ 57 := by
    simp only [Char.isDigit, Bool.and_eq_true, decide_eq_true_eq] at h
    exact UInt32.le_iff_toNat_le.mp h.2
  rw [byte, UInt8.toNat_ofNat']
  omega

/-- A natural number is written in digits. -/
theorem isDigit_of_mem_ofNat {n : Nat} {b : UInt8} (h : b ∈ ofNat n) :
    isDigit b = true := by
  obtain ⟨c, hc, rfl⟩ := List.mem_map.mp h
  have hdigit : c.isDigit = true :=
    Nat.isDigit_of_mem_toDigits (by decide) (by decide) hc
  have hbyte := toNat_byte_of_isDigit hdigit
  simp only [Char.isDigit, Bool.and_eq_true, decide_eq_true_eq, ge_iff_le] at hdigit
  simp only [isDigit, Bool.and_eq_true, decide_eq_true_eq]
  constructor
  · exact UInt8.le_iff_toNat_le.mpr (hbyte ▸ UInt32.le_iff_toNat_le.mp hdigit.1)
  · exact UInt8.le_iff_toNat_le.mpr (hbyte ▸ UInt32.le_iff_toNat_le.mp hdigit.2)

theorem foldl_byte_eq_ofDigitChars
    {cs : List Char} (hcs : ∀ c ∈ cs, c.isDigit = true) (start : Nat) :
    (cs.map byte).foldl (fun n b => 10 * n + (b.toNat - 48)) start =
      Nat.ofDigitChars 10 cs start := by
  induction cs generalizing start with
  | nil => rfl
  | cons c rest ih =>
      have hbyte := toNat_byte_of_isDigit (hcs c List.mem_cons_self)
      have hrest := fun c' hc' => hcs c' (List.mem_cons_of_mem c hc')
      rw [List.map_cons, List.foldl_cons, Nat.ofDigitChars_cons, hbyte]
      exact ih hrest _

/-- The digits of a number read back as the number. -/
theorem digitsValue_ofNat (n : Nat) : digitsValue (ofNat n) = n := by
  have hdigits : ∀ c ∈ Nat.toDigits 10 n, c.isDigit = true :=
    fun _ hc => Nat.isDigit_of_mem_toDigits (by decide) (by decide) hc
  rw [digitsValue, ofNat, foldl_byte_eq_ofDigitChars hdigits,
    Nat.ofDigitChars_ten_toDigits]

theorem ofNat_injective : Function.Injective ofNat := by
  intro m n h
  rw [← digitsValue_ofNat m, ← digitsValue_ofNat n, h]

theorem isDigit_minus : isDigit (byte '-') = false := rfl

/-- Different integers have different texts. -/
theorem ofInt_injective : Function.Injective ofInt := by
  have hsign : ∀ m n : Nat, ofNat m ≠ byte '-' :: ofNat n := by
    intro m n h
    have hdigit := isDigit_of_mem_ofNat (n := m) (b := byte '-') (by simp [h])
    simp [isDigit_minus] at hdigit
  intro m n h
  cases m with
  | ofNat m =>
      cases n with
      | ofNat n => rw [ofNat_injective h]
      | negSucc n => exact absurd h (hsign m (n + 1))
  | negSucc m =>
      cases n with
      | ofNat n => exact absurd h.symm (hsign n (m + 1))
      | negSucc n =>
          have hdigits : ofNat (m + 1) = ofNat (n + 1) := List.tail_eq_of_cons_eq h
          have hsucc := ofNat_injective hdigits
          rw [Nat.succ.inj hsucc]

theorem ofInt64_injective : Function.Injective ofInt64 := by
  intro m n h
  exact Int64.toInt_inj.mp (ofInt_injective h)

theorem mem_ofInt {n : Int} {b : UInt8} (h : b ∈ ofInt n) :
    b = byte '-' ∨ isDigit b = true := by
  cases n with
  | ofNat n => exact Or.inr (isDigit_of_mem_ofNat h)
  | negSucc n =>
      rcases List.mem_cons.mp h with rfl | h
      · exact Or.inl rfl
      · exact Or.inr (isDigit_of_mem_ofNat h)

/-! ## Reading decimals back -/

theorem ofNat_ne_nil (n : Nat) : ofNat n ≠ [] := by
  intro h
  have hdigits : Nat.toDigits 10 n = [] := List.map_eq_nil_iff.mp h
  exact Nat.toDigits_ne_nil hdigits

theorem ofInt64_ne_nil (n : Int64) : ofInt64 n ≠ [] := by
  rw [ofInt64]
  cases n.toInt with
  | ofNat m => exact ofNat_ne_nil m
  | negSucc m => exact List.cons_ne_nil _ _

/-- Digits, at least one, behind an optional sign; `v` is the number that they
stand for. -/
def IsLiteral (t : Text) (v : Int64) : Prop :=
  ∃ sign digits, t = sign ++ digits ∧ digits ≠ [] ∧ (∀ b ∈ digits, isDigit b = true) ∧
    ((sign = [] ∨ sign = [byte '+']) ∧ v.toInt = digitsValue digits ∨
      sign = [byte '-'] ∧ v.toInt = -(digitsValue digits : Int))

theorem IsLiteral.ne_nil {t : Text} {v : Int64} (h : IsLiteral t v) : t ≠ [] := by
  obtain ⟨sign, digits, rfl, hne, -⟩ := h
  exact fun hnil => hne (List.append_eq_nil_iff.mp hnil).2

theorem IsLiteral.mem {t : Text} {v : Int64} (h : IsLiteral t v) {b : UInt8} (hb : b ∈ t) :
    b = byte '+' ∨ b = byte '-' ∨ isDigit b = true := by
  obtain ⟨sign, digits, rfl, -, hdigits, hsign⟩ := h
  rcases List.mem_append.mp hb with hb | hb
  · rcases hsign with ⟨rfl | rfl, -⟩ | ⟨rfl, -⟩
    · exact absurd hb List.not_mem_nil
    · exact .inl (List.mem_singleton.mp hb)
    · exact .inr (.inl (List.mem_singleton.mp hb))
  · exact .inr (.inr (hdigits b hb))

/-- Digits have no sign in front. -/
theorem cutSign_digits {t : Text} (h : ∀ b ∈ t, isDigit b = true) : cutSign t = (false, t) := by
  cases t with
  | nil => rfl
  | cons b rest =>
      have hdigit := h b List.mem_cons_self
      have hplus : b ≠ byte '+' := by
        rintro rfl
        exact absurd hdigit (by decide)
      have hminus : b ≠ byte '-' := by
        rintro rfl
        exact absurd hdigit (by decide)
      simp [cutSign, hplus, hminus]

/-- A number that fits is kept. -/
theorem map_signed_eq_ok_iff {negative : Bool} {magnitude : Nat} {v : Int64} :
    (signed 64 negative magnitude).map Int64.ofInt = .ok v ↔
      v.toInt = if negative then -(magnitude : Int) else magnitude := by
  have hlimit : Nat.pow 2 (64 - 1) = 9223372036854775808 := by decide
  have hlow := v.le_toInt
  have hhigh := v.toInt_lt
  have hkept : ∀ n : Int, -2 ^ 63 ≤ n → n < 2 ^ 63 →
      (((.ok n : Except NumberFault Int).map Int64.ofInt) = .ok v ↔ v.toInt = n) := by
    intro n hn hn'
    rw [Except.map, Except.ok.injEq]
    constructor
    · rintro rfl
      exact Int64.toInt_ofInt_of_le hn hn'
    · rintro rfl
      exact Int64.ofInt_toInt v
  have hlost : ((.error .outOfRange : Except NumberFault Int).map Int64.ofInt) ≠ .ok v := nofun
  rw [signed, hlimit]
  cases negative with
  | true =>
      rw [if_pos rfl, if_pos rfl]
      by_cases h : magnitude ≤ 9223372036854775808
      · rw [if_pos h]
        exact hkept _ (by omega) (by omega)
      · rw [if_neg h]
        exact iff_of_false hlost (by omega)
  | false =>
      rw [if_neg Bool.false_ne_true, if_neg Bool.false_ne_true]
      by_cases h : magnitude < 9223372036854775808
      · rw [if_pos h]
        exact hkept _ (by omega) (by omega)
      · rw [if_neg h]
        exact iff_of_false hlost (by omega)

theorem toInt64?_of_cutSign {t digits : Text} {negative : Bool} {v : Int64}
    (hcut : cutSign t = (negative, digits)) :
    toInt64? t = some v ↔ digits ≠ [] ∧ (∀ b ∈ digits, isDigit b = true) ∧
      v.toInt = if negative then -(digitsValue digits : Int) else digitsValue digits := by
  have hread : toInt64? t = some v ↔ readInt64 t = .ok v := by
    rw [toInt64?]
    cases readInt64 t <;> simp
  rw [hread, readInt64, readSigned, hcut, ← map_signed_eq_ok_iff, ← List.all_eq_true,
    ne_eq, ← List.isEmpty_iff]
  have hlost : ((.error .malformed : Except NumberFault Int).map Int64.ofInt) ≠ .ok v := nofun
  by_cases hdigits : (digits.isEmpty || !digits.all isDigit) = true
  · simp only [if_pos hdigits]
    refine iff_of_false hlost fun h => ?_
    simp [h.1, h.2.1] at hdigits
  · simp only [if_neg hdigits]
    rw [Bool.or_eq_true, not_or, Bool.not_eq_true', Bool.not_eq_false] at hdigits
    exact ⟨fun h => ⟨hdigits.1, hdigits.2, h⟩, fun h => h.2.2⟩

/-- The literals of 64 bits are what reads as a number. -/
theorem toInt64?_eq_some_iff {t : Text} {v : Int64} : toInt64? t = some v ↔ IsLiteral t v := by
  constructor
  · intro h
    cases t with
    | nil => cases h
    | cons b rest =>
        by_cases hplus : b = byte '+'
        · subst hplus
          have hcut : cutSign (byte '+' :: rest) = (false, rest) := rfl
          obtain ⟨hne, hdigits, hv⟩ := (toInt64?_of_cutSign hcut).mp h
          exact ⟨[byte '+'], rest, rfl, hne, hdigits, .inl ⟨.inr rfl, hv⟩⟩
        by_cases hminus : b = byte '-'
        · subst hminus
          have hcut : cutSign (byte '-' :: rest) = (true, rest) := rfl
          obtain ⟨hne, hdigits, hv⟩ := (toInt64?_of_cutSign hcut).mp h
          exact ⟨[byte '-'], rest, rfl, hne, hdigits, .inr ⟨rfl, hv⟩⟩
        · have hcut : cutSign (b :: rest) = (false, b :: rest) := by
            rw [cutSign, if_neg hplus, if_neg hminus]
          obtain ⟨hne, hdigits, hv⟩ := (toInt64?_of_cutSign hcut).mp h
          exact ⟨[], b :: rest, rfl, hne, hdigits, .inl ⟨.inl rfl, hv⟩⟩
  · rintro ⟨sign, digits, rfl, hne, hdigits, ⟨rfl | rfl, hv⟩ | ⟨rfl, hv⟩⟩
    · exact (toInt64?_of_cutSign (cutSign_digits hdigits)).mpr ⟨hne, hdigits, hv⟩
    · have hcut : cutSign ([byte '+'] ++ digits) = (false, digits) := rfl
      exact (toInt64?_of_cutSign hcut).mpr ⟨hne, hdigits, hv⟩
    · have hcut : cutSign ([byte '-'] ++ digits) = (true, digits) := rfl
      exact (toInt64?_of_cutSign hcut).mpr ⟨hne, hdigits, hv⟩
/-- The decimal of a number is a literal for it. -/
theorem isLiteral_ofInt64 (n : Int64) : IsLiteral (ofInt64 n) n := by
  have hdigits : ∀ m, ∀ b ∈ ofNat m, isDigit b = true := fun m b hb => isDigit_of_mem_ofNat hb
  rw [ofInt64]
  cases hn : n.toInt with
  | ofNat m =>
      refine ⟨[], ofNat m, rfl, ofNat_ne_nil m, hdigits m, .inl ⟨.inl rfl, ?_⟩⟩
      rw [hn, digitsValue_ofNat, Int.ofNat_eq_natCast]
  | negSucc m =>
      refine ⟨[byte '-'], ofNat (m + 1), rfl, ofNat_ne_nil (m + 1), hdigits (m + 1),
        .inr ⟨rfl, ?_⟩⟩
      rw [hn, digitsValue_ofNat, Int.negSucc_eq]
      rfl

@[simp]
theorem toInt64?_ofInt64 (n : Int64) : toInt64? (ofInt64 n) = some n :=
  toInt64?_eq_some_iff.mpr (isLiteral_ofInt64 n)

end Population.Text
