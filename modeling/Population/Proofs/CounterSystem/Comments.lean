import Population.Proofs.CounterSystem.ReadingBack

/-!
# Comments in counter systems

The reader skips comments wherever it skips blanks: before words and signs, and
before an initial value.  Guards, bodies and initial values are cut out of the
text as they stand, up to the byte that closes them, and no comment is skipped in
them.  A scan over the bytes tells these zones apart.  Adding a comment at the end
of a line then has one of two effects.  Outside the raw zones the reader goes over
both texts in lockstep: what is ahead of it differs by the comment until it skips
the comment, and agrees from there on.  Inside a raw zone the comment becomes a
part of a guard, a body or a value, and since a slash stands in none of them, the
text is rejected.
-/

namespace Population.CounterSystem

open Text (byte)
open Description (exists_of_bind_eq_ok)

/-! ## Zones -/

/-- The parts of the syntax that treat comments differently. -/
inductive Zone where
  /-- Words and signs outside the other zones. -/
  | plain
  /-- A guard, up to its closing bracket. -/
  | guard
  /-- Between a guard and the body behind it. -/
  | guarded
  /-- A body, up to its closing brace. -/
  | body
  /-- Behind an equals sign, before the initial value. -/
  | assigned
  /-- An initial value, up to its semicolon. -/
  | value
  deriving DecidableEq

namespace Zone

/-- Whether the zone is cut out as it stands. -/
def isRaw : Zone → Bool
  | guard | body | value => true
  | plain | guarded | assigned => false

/-- The zone behind a byte that belongs to no comment. -/
def next (z : Zone) (b : UInt8) : Zone :=
  match z with
  | plain => if b = byte '[' then guard else if b = byte '=' then assigned else plain
  | guard => if b = byte ']' then guarded else guard
  | guarded => if b = byte '\x7b' then body else guarded
  | body => if b = byte '\x7d' then plain else body
  | assigned => if isBlank b then assigned else value
  | value => if b = byte ';' then plain else value

theorem next_blank {z : Zone} (hz : z.isRaw = false) {b : UInt8} (hb : isBlank b = true) :
    z.next b = z := by
  have hsign : b ≠ byte '[' ∧ b ≠ byte '=' ∧ b ≠ byte '\x7b' := by
    refine ⟨?_, ?_, ?_⟩ <;> rintro rfl <;> exact absurd hb (by decide)
  cases z with
  | plain => rw [next, if_neg hsign.1, if_neg hsign.2.1]
  | guarded => rw [next, if_neg hsign.2.2]
  | assigned => rw [next, if_pos hb]
  | guard | body | value => cases hz

end Zone

/-- Where a place of the text lies. -/
structure Spot where
  zone : Zone
  inComment : Bool
  deriving DecidableEq

namespace Spot

/-- The spot behind one more byte: outside the raw zones a slash opens a comment,
which ends with its line. -/
def next (s : Spot) (b : UInt8) : Spot :=
  if s.inComment then { s with inComment := b != byte '\n' }
  else if b = byte '/' ∧ s.zone.isRaw = false then { s with inComment := true }
  else { s with zone := s.zone.next b }

/-- The spot at the end of a text. -/
def after (t : Text) : Spot :=
  t.foldl next ⟨.plain, false⟩

variable {z : Zone} {b : UInt8}

theorem next_of_ne_slash (hb : b ≠ byte '/') : next ⟨z, false⟩ b = ⟨z.next b, false⟩ := by
  rw [next, if_neg Bool.false_ne_true, if_neg fun h => hb h.1]

theorem next_raw (hz : z.isRaw = true) (b : UInt8) : next ⟨z, false⟩ b = ⟨z.next b, false⟩ := by
  rw [next, if_neg Bool.false_ne_true, if_neg (by simp [hz])]

theorem next_slash (hz : z.isRaw = false) : next ⟨z, false⟩ (byte '/') = ⟨z, true⟩ := by
  rw [next, if_neg Bool.false_ne_true, if_pos ⟨rfl, hz⟩]

theorem next_blank (hz : z.isRaw = false) (hb : isBlank b = true) :
    next ⟨z, false⟩ b = ⟨z, false⟩ := by
  have hslash : b ≠ byte '/' := by
    rintro rfl
    exact absurd hb (by decide)
  rw [next_of_ne_slash hslash, Zone.next_blank hz hb]

theorem next_inComment (hb : b ≠ byte '\n') : next ⟨z, true⟩ b = ⟨z, true⟩ := by
  rw [next, if_pos rfl, bne_iff_ne.mpr hb]

theorem next_end (hz : z.isRaw = false) (inComment : Bool) :
    next ⟨z, inComment⟩ (byte '\n') = ⟨z, false⟩ := by
  cases inComment with
  | true => rfl
  | false => exact next_blank hz (by decide)

end Spot

/-! ## A comment ahead -/

/-- What is ahead of the reader in a text, and in the text with a comment added at
the end of a line: the same up to there, or everything the same, when the comment
lies behind. -/
inductive Near (q c : Text) (last : Spot) : Spot → Text → Text → Prop
  | ahead {s : Spot} (x : Text) (h : x.foldl Spot.next s = last) :
      Near q c last s (x ++ byte '\n' :: q) (x ++ byte '/' :: byte '/' :: (c ++ byte '\n' :: q))
  | past {s : Spot} (r : Text) (h : last.zone.isRaw = false) : Near q c last s r r

variable {q c : Text} {last : Spot} {r r' : Text}

/-- A byte that ends no line is read from both texts. -/
theorem Near.uncons {s : Spot} {b : UInt8} (hb : b ≠ byte '\n')
    (h : Near q c last s (b :: r) r') : ∃ r₁, r' = b :: r₁ ∧ Near q c last (s.next b) r r₁ := by
  generalize htext : b :: r = text at h
  cases h with
  | past _ hlast =>
      subst htext
      exact ⟨r, rfl, .past r hlast⟩
  | ahead x h =>
      cases x with
      | nil => exact absurd (List.cons.inj htext).1 hb
      | cons b' x =>
          obtain ⟨rfl, rfl⟩ := List.cons.inj htext
          exact ⟨_, rfl, .ahead x h⟩

/-- A comment is not ahead of the end of the text. -/
theorem Near.eq_nil {s : Spot} (h : Near q c last s [] r') :
    r' = [] ∧ last.zone.isRaw = false := by
  generalize htext : ([] : Text) = text at h
  cases h with
  | past _ hlast => exact ⟨rfl, hlast⟩
  | ahead x _ => simp at htext

/-! ### Skipping -/

theorem skipFrom_rest (inComment : Bool) (line line' : Nat) (t : Text) :
    (skipFrom inComment line t).rest = (skipFrom inComment line' t).rest := by
  induction t generalizing inComment line line' with
  | nil => rfl
  | cons b rest ih =>
      unfold skipFrom
      split
      · exact ih ..
      split
      · exact ih ..
      split
      · exact ih ..
      split
      · exact ih ..
      · rfl

/-- Skipping stops where it would stop again, and not at a blank. -/
theorem skipFrom_skipFrom (inComment : Bool) (line line' : Nat) (t : Text) :
    (skipFrom false line' (skipFrom inComment line t).rest).rest =
      (skipFrom inComment line t).rest ∧
        ∀ b ∈ (skipFrom inComment line t).rest.head?, isBlank b = false := by
  induction t generalizing inComment line with
  | nil => exact ⟨rfl, by simp [skipFrom]⟩
  | cons b rest ih =>
      rw [skipFrom]
      split
      · exact ih ..
      split
      · exact ih ..
      split
      · exact ih ..
      split
      · exact ih ..
      next hend _ hblank hopens =>
        refine ⟨?_, by simpa using hblank⟩
        rw [skipFrom, if_neg hend, if_neg Bool.false_ne_true, if_neg hblank, if_neg hopens]

section Skipping

variable {b : UInt8} {t : Text}

theorem skipFrom_end (inComment : Bool) (line : Nat) (t : Text) :
    (skipFrom inComment line (byte '\n' :: t)).rest = (skipFrom false line t).rest := by
  rw [skipFrom, if_pos rfl]
  exact skipFrom_rest false (line + 1) line t

theorem skipFrom_inComment (hb : b ≠ byte '\n') (line : Nat) (t : Text) :
    skipFrom true line (b :: t) = skipFrom true line t := by
  rw [skipFrom, if_neg hb, if_pos rfl]

theorem skipFrom_blank (hb : isBlank b = true) (line : Nat) (t : Text) :
    (skipFrom false line (b :: t)).rest = (skipFrom false line t).rest := by
  by_cases hend : b = byte '\n'
  · rw [hend]
    exact skipFrom_end false line t
  · rw [skipFrom, if_neg hend, if_neg Bool.false_ne_true, if_pos hb]

theorem skipFrom_slash (ht : t.head? = some (byte '/')) (line : Nat) :
    skipFrom false line (byte '/' :: t) = skipFrom true line t := by
  rw [skipFrom, if_neg (by decide), if_neg Bool.false_ne_true, if_neg (by decide),
    if_pos ⟨rfl, ht⟩]

/-- A comment is skipped up to the end of its line. -/
theorem skipFrom_comment (hc : byte '\n' ∉ c) (line : Nat) :
    (skipFrom true line (c ++ byte '\n' :: q)).rest = (skipFrom false line q).rest := by
  induction c with
  | nil => exact skipFrom_end true line q
  | cons b rest ih =>
      rw [List.mem_cons, not_or] at hc
      rw [List.cons_append, skipFrom_inComment (Ne.symm hc.1)]
      exact ih hc.2

theorem skipFrom_added (hc : byte '\n' ∉ c) (inComment : Bool) (line : Nat) :
    (skipFrom inComment line (byte '/' :: byte '/' :: (c ++ byte '\n' :: q))).rest =
      (skipFrom false line q).rest := by
  have hslash : byte '/' ≠ byte '\n' := by decide
  cases inComment with
  | true =>
      rw [skipFrom_inComment hslash, skipFrom_inComment hslash]
      exact skipFrom_comment hc line
  | false =>
      rw [skipFrom_slash rfl, skipFrom_inComment hslash]
      exact skipFrom_comment hc line

end Skipping

/-- Skipping passes a byte as the scan does, or stops at it.  A slash is passed only
if another one follows. -/
theorem skipFrom_cases {z : Zone} (hz : z.isRaw = false) (inComment : Bool) (b : UInt8) :
    (∃ inComment', Spot.next ⟨z, inComment⟩ b = ⟨z, inComment'⟩ ∧ ∀ line t,
        (inComment = false → b = byte '/' → t.head? = some (byte '/')) →
          (skipFrom inComment line (b :: t)).rest = (skipFrom inComment' line t).rest) ∨
      inComment = false ∧ ∀ line t, (skipFrom inComment line (b :: t)).rest = b :: t := by
  by_cases hend : b = byte '\n'
  · subst hend
    exact .inl ⟨false, Spot.next_end hz inComment, fun line t _ => skipFrom_end inComment line t⟩
  cases inComment with
  | true =>
      exact .inl ⟨true, Spot.next_inComment hend,
        fun line t _ => by rw [skipFrom_inComment hend]⟩
  | false =>
      by_cases hblank : isBlank b = true
      · exact .inl ⟨false, Spot.next_blank hz hblank, fun line t _ => skipFrom_blank hblank line t⟩
      by_cases hslash : b = byte '/'
      · subst hslash
        exact .inl ⟨true, Spot.next_slash hz,
          fun line t hnext => by rw [skipFrom_slash (hnext rfl rfl)]⟩
      · have hstops : stops b = true := by simp [stops, hblank, hslash]
        exact .inr ⟨rfl, fun line t => by rw [skipFrom_stop hstops]⟩

theorem skipFrom_lone_slash {t : Text} (ht : t.head? ≠ some (byte '/')) (line : Nat) :
    (skipFrom false line (byte '/' :: t)).rest = byte '/' :: t := by
  rw [skipFrom, if_neg (by decide), if_neg Bool.false_ne_true, if_neg (by decide),
    if_neg fun hopens => ht hopens.2]

/-- Skipping passes the comment, or stops before it, unless it stops at a slash. -/
theorem Near.skip
    {z : Zone} (hz : z.isRaw = false) (hc : byte '\n' ∉ c) {inComment : Bool}
    (h : Near q c last ⟨z, inComment⟩ r r') (line line' : Nat)
    (hstop : (skipFrom inComment line r).rest.head? ≠ some (byte '/')) :
    Near q c last ⟨z, false⟩ (skipFrom inComment line r).rest
      (skipFrom inComment line' r').rest := by
  cases h with
  | past _ hlast =>
      rw [skipFrom_rest inComment line' line]
      exact .past _ hlast
  | ahead x h =>
      -- The induction is on what is common to both texts in front of the comment.
      induction x generalizing inComment with
      | nil =>
          have hlast : last.zone.isRaw = false := by
            rw [← h]
            exact hz
          rw [List.nil_append, List.nil_append, skipFrom_added hc, skipFrom_end,
            skipFrom_rest false line' line]
          exact .past _ hlast
      | cons b x ih =>
          rw [List.cons_append] at hstop ⊢
          rw [List.cons_append]
          rcases skipFrom_cases hz inComment b with ⟨inComment', hnext, hpass⟩ | ⟨rfl, hstops⟩
          · have hslash : inComment = false → b = byte '/' →
                (x ++ byte '\n' :: q).head? = some (byte '/') := by
              rintro rfl rfl
              by_contra hlone
              exact hstop (by rw [skipFrom_lone_slash hlone, List.head?_cons])
            have hslash' : inComment = false → b = byte '/' →
                (x ++ byte '/' :: byte '/' :: (c ++ byte '\n' :: q)).head? =
                  some (byte '/') := by
              intro hin hb
              cases x with
              | nil => rfl
              | cons b' x => exact hslash hin hb
            rw [hpass _ _ hslash] at hstop ⊢
            rw [hpass _ _ hslash']
            rw [List.foldl_cons, hnext] at h
            exact ih h hstop
          · rw [hstops, hstops]
            exact .ahead (b :: x) h

/-! ### Words -/

theorem plain_next_continuesWord {b : UInt8} (hb : continuesWord b = true) :
    Zone.plain.next b = .plain := by
  have hsign : ∀ b, continuesWord b = true → b ≠ byte '[' ∧ b ≠ byte '=' :=
    Text.forall_byte (by decide +kernel)
  obtain ⟨hopen, hequals⟩ := hsign b hb
  rw [Zone.next, if_neg hopen, if_neg hequals]

theorem Near.word
    (h : Near q c last ⟨.plain, false⟩ r r') :
    r.takeWhile continuesWord = r'.takeWhile continuesWord ∧
      Near q c last ⟨.plain, false⟩ (r.dropWhile continuesWord) (r'.dropWhile continuesWord) := by
  cases h with
  | past _ hlast => exact ⟨rfl, .past _ hlast⟩
  | ahead x h =>
      induction x with
      | nil => exact ⟨rfl, .ahead [] h⟩
      | cons b x ih =>
          rw [List.cons_append, List.cons_append]
          by_cases hb : continuesWord b = true
          · have hslash : b ≠ byte '/' := by
              rintro rfl
              exact absurd hb (by decide)
            rw [List.foldl_cons, Spot.next_of_ne_slash hslash, plain_next_continuesWord hb] at h
            rw [List.takeWhile_cons_of_pos hb, List.takeWhile_cons_of_pos hb,
              List.dropWhile_cons_of_pos hb, List.dropWhile_cons_of_pos hb]
            obtain ⟨htake, hdrop⟩ := ih h
            exact ⟨congrArg (b :: ·) htake, hdrop⟩
          · rw [List.takeWhile_cons_of_neg hb, List.takeWhile_cons_of_neg hb,
              List.dropWhile_cons_of_neg hb, List.dropWhile_cons_of_neg hb]
            exact ⟨rfl, .ahead (b :: x) h⟩

/-! ### Raw text -/

theorem foldl_raw {z : Zone} {stop : UInt8} (hz : z.isRaw = true)
    (hstay : ∀ b ≠ stop, z.next b = z) {x : Text} (hx : stop ∉ x) :
    x.foldl Spot.next ⟨z, false⟩ = ⟨z, false⟩ := by
  induction x with
  | nil => rfl
  | cons b x ih =>
      rw [List.mem_cons, not_or] at hx
      rw [List.foldl_cons, Spot.next_raw hz, hstay b (Ne.symm hx.1)]
      exact ih hx.2

/-- What is cut out of a text behind a slash holds the slash. -/
theorem slash_mem_of_cut
    {stop : UInt8} (hstop : stop ≠ byte '/') {x t raw rest : Text} (hx : stop ∉ x)
    (h : Text.cut stop (x ++ byte '/' :: t) = some (raw, rest)) : byte '/' ∈ raw := by
  obtain ⟨-, htext⟩ := Text.cut_eq_some_iff.mp h
  obtain ⟨u, rfl, hu⟩ | ⟨u, rfl, hu⟩ := List.append_eq_append_iff.mp htext
  · cases u with
    | nil => exact absurd (List.cons.inj hu).1.symm hstop
    | cons b u =>
        rw [← (List.cons.inj hu).1]
        simp
  · cases u with
    | nil => exact absurd (List.cons.inj hu).1 hstop
    | cons b u =>
        rw [← (List.cons.inj hu).1] at hx
        simp at hx

/-- Up to the closing byte, both texts are the same, or the comment stands in
between. -/
theorem Near.cut
    {z z' : Zone} {stop : UInt8} (hz : z.isRaw = true) (hstay : ∀ b ≠ stop, z.next b = z)
    (hclose : z.next stop = z') (hslash : stop ≠ byte '/')
    (h : Near q c last ⟨z, false⟩ r r') {raw rest : Text}
    (hcut : Text.cut stop r = some (raw, rest)) :
    (∃ rest', Text.cut stop r' = some (raw, rest') ∧ Near q c last ⟨z', false⟩ rest rest') ∨
      last.zone.isRaw = true ∧
        ∀ raw' rest', Text.cut stop r' = some (raw', rest') → byte '/' ∈ raw' := by
  cases h with
  | past _ hlast => exact .inl ⟨rest, hcut, .past rest hlast⟩
  | ahead x h =>
      obtain ⟨hraw, htext⟩ := Text.cut_eq_some_iff.mp hcut
      by_cases hx : stop ∈ x
      · obtain ⟨x₁, x₂, rfl, hx₁⟩ := List.eq_append_cons_of_mem hx
        rw [List.append_assoc, List.cons_append] at htext
        obtain ⟨rfl, rfl⟩ := Text.append_cons_inj hx₁ hraw htext
        rw [List.foldl_append, foldl_raw hz hstay hx₁, List.foldl_cons, Spot.next_raw hz,
          hclose] at h
        refine .inl ⟨_, ?_, .ahead x₂ h⟩
        rw [List.append_assoc, List.cons_append]
        exact Text.cut_append_cons hx₁ _
      · rw [foldl_raw hz hstay hx] at h
        refine .inr ⟨?_, fun raw' rest' hcut' => slash_mem_of_cut hslash hx hcut'⟩
        rw [← h]
        exact hz

/-- An initial value starts with the first byte that is not skipped. -/
theorem Near.value
    {b : UInt8} (hblank : isBlank b = false) (hslash : b ≠ byte '/') (hclose : b ≠ byte ';')
    (h : Near q c last ⟨.assigned, false⟩ (b :: r) r') :
    Near q c last ⟨.value, false⟩ (b :: r) r' := by
  generalize htext : b :: r = text at h
  cases h with
  | past _ hlast => exact .past _ hlast
  | ahead x h =>
      cases x with
      | nil =>
          obtain ⟨rfl, -⟩ := List.cons.inj htext
          exact absurd hblank (by decide)
      | cons b' x =>
          obtain ⟨rfl, -⟩ := List.cons.inj htext
          refine .ahead (b :: x) ?_
          rw [← h, List.foldl_cons, List.foldl_cons, Spot.next_of_ne_slash hslash,
            Spot.next_of_ne_slash hslash, Zone.next, Zone.next, if_neg hclose, hblank]
          rfl

/-! ## Reading both texts -/

/-- Where the first computation succeeds, so does the second, with a related
result; but it may be rejected when the comment lies in a raw zone. -/
def Follows (last : Spot) {α β : Type} (R : α → β → Prop) (x : Except ReadError α)
    (x' : Except ReadError β) : Prop :=
  ∀ a, x = .ok a →
    (∃ b, x' = .ok b ∧ R a b) ∨ last.zone.isRaw = true ∧ ∃ e, x' = .error e

section Follows

variable {α β γ δ : Type} {R : α → β → Prop} {S : γ → δ → Prop} {x : Except ReadError α}
  {x' : Except ReadError β}

theorem Follows.ok {a : α} {b : β} (h : R a b) : Follows last R (.ok a) (.ok b) := by
  rintro a' ⟨⟩
  exact .inl ⟨b, rfl, h⟩

theorem Follows.fail (p : Place) (fault : ReadFault) (x' : Except ReadError β) :
    Follows last R (p.fail fault) x' := by
  rintro a ⟨⟩

theorem Follows.rejected (hlast : last.zone.isRaw = true) {e : ReadError} :
    Follows last R x (.error e) :=
  fun _ _ => .inr ⟨hlast, e, rfl⟩

theorem Follows.bind {f : α → Except ReadError γ} {f' : β → Except ReadError δ}
    (h : Follows last R x x') (hf : ∀ a b, R a b → Follows last S (f a) (f' b)) :
    Follows last S (x >>= f) (x' >>= f') := by
  intro c hc
  obtain ⟨a, ha, hc⟩ := exists_of_bind_eq_ok hc
  rcases h a ha with ⟨b, rfl, hR⟩ | ⟨hlast, e, rfl⟩
  · exact hf a b hR c hc
  · exact .inr ⟨hlast, e, rfl⟩

theorem Follows.check {ε : Type} (p p' : Place) (wrap : ε → ReadFault) (x : Except ε α) :
    Follows last Eq (p.check wrap x) (p'.check wrap x) := by
  cases x with
  | ok a => exact .ok rfl
  | error e => exact .fail p (wrap e) _

end Follows

/-- Two places with the same text ahead of them, up to the comment. -/
def Abreast (q c : Text) (last : Spot) (z : Zone) (p p' : Place) : Prop :=
  Near q c last ⟨z, false⟩ p.rest p'.rest

section Steps

variable {z z' : Zone} {p p' : Place}

theorem Abreast.skip (hz : z.isRaw = false) (hc : byte '\n' ∉ c) (h : Abreast q c last z p p')
    (hstop : p.skip.rest.head? ≠ some (byte '/')) : Abreast q c last z p.skip p'.skip :=
  Near.skip hz hc h p.line p'.line hstop

/-- The byte at which skipping stops is ahead in both texts. -/
theorem Abreast.first
    (hz : z.isRaw = false) (hc : byte '\n' ∉ c) (h : Abreast q c last z p p') {b : UInt8}
    {rest : Text} (hrest : p.skip.rest = b :: rest) (hslash : b ≠ byte '/')
    (hend : b ≠ byte '\n') :
    ∃ rest', p'.skip.rest = b :: rest' ∧ Near q c last ⟨z.next b, false⟩ rest rest' := by
  have hskip := h.skip hz hc (by simp [hrest, hslash])
  rw [Abreast, hrest] at hskip
  obtain ⟨rest', hrest', hnear⟩ := hskip.uncons hend
  rw [Spot.next_of_ne_slash hslash] at hnear
  exact ⟨rest', hrest', hnear⟩

theorem ne_of_startsWord {b : UInt8} (hstart : startsWord b = true) :
    b ≠ byte '/' ∧ b ≠ byte '\n' := by
  constructor <;> rintro rfl <;> exact absurd hstart (by decide)

theorem follows_word (hc : byte '\n' ∉ c) (h : Abreast q c last .plain p p') :
    Follows last (fun w w' => w.1 = w'.1 ∧ Abreast q c last .plain w.2 w'.2) p.word p'.word := by
  rintro ⟨word, p₁⟩ hword
  simp only [Place.word] at hword
  split at hword
  next => cases hword
  next b rest hrest =>
    split at hword
    next hstart =>
      cases hword
      obtain ⟨hslash, hend⟩ := ne_of_startsWord hstart
      obtain ⟨rest', hrest', hnear⟩ := h.first rfl hc hrest hslash hend
      have hcontinues : continuesWord b = true := by simp [continuesWord, hstart]
      rw [plain_next_continuesWord hcontinues] at hnear
      obtain ⟨htake, hdrop⟩ := hnear.word
      have hword' : p'.word = .ok (b :: rest'.takeWhile continuesWord,
          ⟨p'.skip.line, rest'.dropWhile continuesWord⟩) := by
        simp only [Place.word, hrest', if_pos hstart]
      exact .inl ⟨_, hword', congrArg (b :: ·) htake, hdrop⟩
    next => cases hword

theorem follows_expect (hz : z.isRaw = false) (hc : byte '\n' ∉ c) {want : UInt8}
    (hwant : want ≠ byte '/') (hend : want ≠ byte '\n') (hnext : z.next want = z')
    (h : Abreast q c last z p p') :
    Follows last (Abreast q c last z') (p.expect want) (p'.expect want) := by
  intro p₁ hexpect
  simp only [Place.expect] at hexpect
  split at hexpect
  next => cases hexpect
  next b rest hrest =>
    split at hexpect
    next hb =>
      cases hexpect
      subst hb
      obtain ⟨rest', hrest', hnear⟩ := h.first hz hc hrest hwant hend
      rw [hnext] at hnear
      refine .inl ⟨⟨p'.skip.line, rest'⟩, ?_, hnear⟩
      simp only [Place.expect, hrest', if_pos]
    next => cases hexpect

/-- Raw text is read from both places, or the comment becomes a part of it. -/
theorem follows_upTo
    {stop : UInt8} (hz : z.isRaw = true) (hstay : ∀ b ≠ stop, z.next b = z)
    (hclose : z.next stop = z') (hslash : stop ≠ byte '/') (h : Abreast q c last z p p') :
    Follows last (fun w w' => w.1 = w'.1 ∧ Abreast q c last z' w.2 w'.2 ∨
      last.zone.isRaw = true ∧ byte '/' ∈ w'.1) (p.upTo stop) (p'.upTo stop) := by
  rintro ⟨raw, p₁⟩ hupTo
  simp only [Place.upTo] at hupTo
  split at hupTo
  next => cases hupTo
  next raw' rest hcut =>
    cases hupTo
    rcases h.cut hz hstay hclose hslash hcut with ⟨rest', hcut', hnear⟩ | ⟨hlast, hmem⟩
    · exact .inl ⟨(raw, ⟨p'.line + lineEnds raw, rest'⟩), by simp only [Place.upTo, hcut'],
        .inl ⟨rfl, hnear⟩⟩
    · cases hcut' : p'.rest.cut stop with
      | none => exact .inr ⟨hlast, _, by simp only [Place.upTo, hcut']; rfl⟩
      | some cut =>
          exact .inl ⟨(cut.1, ⟨p'.line + lineEnds cut.1, cut.2⟩), by simp only [Place.upTo, hcut'],
            .inr ⟨hlast, hmem cut.1 cut.2 hcut'⟩⟩

/-- What holds no slash cannot be read from raw text with the comment in it. -/
theorem follows_parsed
    {ε α β γ : Type} {S : β → γ → Prop} {parse : Text → Except ε α}
    (hparse : ∀ t a, parse t = .ok a → byte '/' ∉ t) {wrap : ε → ReadFault} {raw raw' : Text}
    {f : α → Except ReadError β} {f' : α → Except ReadError γ}
    (hraw : raw = raw' ∧ Abreast q c last z p p' ∨ last.zone.isRaw = true ∧ byte '/' ∈ raw')
    (hf : Abreast q c last z p p' → ∀ a, Follows last S (f a) (f' a)) :
    Follows last S (p.check wrap (parse raw) >>= f) (p'.check wrap (parse raw') >>= f') := by
  rcases hraw with ⟨rfl, habreast⟩ | ⟨hlast, hmem⟩
  · refine (Follows.check p p' wrap (parse raw)).bind ?_
    rintro a _ rfl
    exact hf habreast a
  · cases hresult : parse raw' with
    | ok a => exact absurd hmem (hparse raw' a hresult)
    | error e => exact Follows.rejected hlast

end Steps

/-! ### Items -/

section Items

variable {d : Draft} {p p' : Place}

/-- What one item, or all that are left, do to both readers. -/
def Entered (q c : Text) (last : Spot) (w w' : Draft × Place) : Prop :=
  w.1 = w'.1 ∧ Abreast q c last .plain w.2 w'.2

theorem slash_not_mem_of_value {raw : Text} {v : Int64} (h : raw.trim.toInt64? = some v) :
    byte '/' ∉ raw := by
  obtain ⟨left, right, hleft, hright, hraw, -⟩ := Text.exists_trim raw
  have hliteral : byte '/' ∉ raw.trim :=
    Phrase.not_mem_literal (Text.toInt64?_eq_some_iff.mp h) (by decide)
  rw [hraw]
  exact List.not_mem_append (List.not_mem_append (hleft.not_mem (by decide)) hliteral)
    (hright.not_mem (by decide))

/-- An initial value that can be read starts where skipping stops. -/
theorem Abreast.value
    (hc : byte '\n' ∉ c) (h : Abreast q c last .assigned p p') {raw : Text} {p₁ : Place} {v : Int64}
    (hupTo : p.skip.upTo (byte ';') = .ok (raw, p₁)) (hv : raw.trim.toInt64? = some v) :
    Abreast q c last .value p.skip p'.skip := by
  simp only [Place.upTo] at hupTo
  split at hupTo
  next => cases hupTo
  next raw rest hcut =>
    cases hupTo
    obtain ⟨hclose, hrest⟩ := Text.cut_eq_some_iff.mp hcut
    have hslash := slash_not_mem_of_value hv
    cases raw with
    | nil =>
        have hnone : (Text.trim []).toInt64? = none := by decide
        rw [hnone] at hv
        cases hv
    | cons b raw =>
        rw [List.mem_cons, not_or] at hclose hslash
        have hskip := h.skip rfl hc (by simp [hrest, Ne.symm hslash.1])
        have hblank := (skipFrom_skipFrom false p.line 0 p.rest).2 b (by
          rw [← Place.skip, hrest]
          rfl)
        rw [Abreast, hrest] at hskip ⊢
        exact hskip.value hblank (Ne.symm hslash.1) (Ne.symm hclose.1)

theorem follows_declaration (hc : byte '\n' ∉ c) (h : Abreast q c last .plain p p') :
    Follows last (Entered q c last) (readDeclaration d p) (readDeclaration d p') := by
  refine (follows_word hc h).bind ?_
  rintro ⟨name, p₁⟩ ⟨_, p₁'⟩ ⟨rfl, h₁⟩
  refine (follows_expect rfl hc (by decide) (by decide) rfl h₁).bind ?_
  intro p₂ p₂' h₂ w hw
  obtain ⟨⟨raw, p₃⟩, hupTo, hvalue⟩ := exists_of_bind_eq_ok hw
  have hv : ∃ v, raw.trim.toInt64? = some v := by
    cases hv : raw.trim.toInt64? with
    | none =>
        simp only [hv] at hvalue
        cases hvalue
    | some v => exact ⟨v, rfl⟩
  obtain ⟨v, hv⟩ := hv
  have hstay : ∀ b ≠ byte ';', Zone.value.next b = .value := fun b hb => if_neg hb
  refine (follows_upTo rfl hstay rfl (by decide) (h₂.value hc hupTo hv)).bind ?_ w hw
  rintro ⟨raw, p₃⟩ ⟨raw', p₃'⟩ (⟨rfl, h₃⟩ | ⟨hlast, hmem⟩)
  · simp only
    cases raw.trim.toInt64? with
    | none => exact .fail p₃ _ _
    | some v =>
        refine (Follows.check p₃ p₃' .refused (d.declare name v)).bind ?_
        rintro d' _ rfl
        exact .ok ⟨rfl, h₃⟩
  · simp only
    cases hv' : raw'.trim.toInt64? with
    | none => exact .rejected hlast
    | some v => exact absurd hmem (slash_not_mem_of_value hv')

theorem follows_transition (hc : byte '\n' ∉ c) (h : Abreast q c last .plain p p') :
    Follows last (Entered q c last) (readTransition d p) (readTransition d p') := by
  have hguard : ∀ b ≠ byte ']', Zone.guard.next b = .guard := fun b hb => if_neg hb
  have hbody : ∀ b ≠ byte '\x7d', Zone.body.next b = .body := fun b hb => if_neg hb
  refine (follows_word hc h).bind ?_
  rintro ⟨name, p₁⟩ ⟨_, p₁'⟩ ⟨rfl, h₁⟩
  refine (follows_expect rfl hc (by decide) (by decide) rfl h₁).bind ?_
  intro p₂ p₂' h₂
  refine (follows_upTo rfl hguard rfl (by decide) h₂).bind ?_
  rintro ⟨guardText, p₃⟩ ⟨guardText', p₃'⟩ h₃
  refine follows_parsed (fun t g hg => Guard.not_mem_of_read hg (by decide) (by decide)) h₃ ?_
  intro h₃ guard
  refine (follows_expect rfl hc (by decide) (by decide) rfl h₃).bind ?_
  intro p₄ p₄' h₄
  refine (follows_upTo rfl hbody rfl (by decide) h₄).bind ?_
  rintro ⟨body, p₅⟩ ⟨body', p₅'⟩ h₅
  refine follows_parsed (fun t us hus => Updates.not_mem_of_read hus (by decide) (by decide)) h₅ ?_
  intro h₅ updates
  refine (Follows.check p₅ p₅' .refused (d.addTransition ⟨name, guard, updates⟩)).bind ?_
  rintro d' _ rfl
  exact .ok ⟨rfl, h₅⟩

/-- Where a word is read after skipping, its first byte is ahead. -/
theorem startsWord_of_word
    {w : Text × Place} (h : p.skip.word = .ok w) {b : UInt8} {rest : Text}
    (hrest : p.skip.rest = b :: rest) : startsWord b = true := by
  have hskip : p.skip.skip.rest = b :: rest := by
    rw [← hrest]
    exact (skipFrom_skipFrom false p.line p.skip.line p.rest).1
  simp only [Place.word, hskip] at h
  split at h
  next hstart => exact hstart
  next => cases h

/-- The items of both texts are entered one by one; the fuel may differ, since the
second text is longer. -/
theorem follows_items
    (hc : byte '\n' ∉ c) {fuel fuel' : Nat} (hfuel : fuel ≤ fuel')
    (h : Abreast q c last .plain p p') :
    Follows last (Entered q c last) (readItems fuel d p) (readItems fuel' d p') := by
  induction fuel generalizing fuel' d p p' with
  | zero => exact .fail p .unclosed _
  | succ fuel ih =>
      obtain ⟨more, rfl⟩ := Nat.exists_eq_add_of_lt hfuel
      intro w hw
      simp only [readItems] at hw
      split at hw
      next => cases hw
      next b rest hrest =>
        split at hw
        next hclose =>
          cases hw
          subst hclose
          obtain ⟨rest', hrest', hnear⟩ := h.first rfl hc hrest (by decide) (by decide)
          refine .inl ⟨(d, ⟨p'.skip.line, rest'⟩), ?_, rfl, hnear⟩
          simp only [readItems, hrest', if_pos]
        next hopen =>
          obtain ⟨word, hword, -⟩ := exists_of_bind_eq_ok hw
          obtain ⟨hslash, hend⟩ := ne_of_startsWord (startsWord_of_word hword hrest)
          have hskip := h.skip rfl hc (by simp [hrest, hslash])
          obtain ⟨rest', hrest', -⟩ := h.first rfl hc hrest hslash hend
          simp only [readItems, hrest', if_neg hopen]
          refine (follows_word hc hskip).bind ?_ w hw
          rintro ⟨word, p₁⟩ ⟨_, p₁'⟩ ⟨rfl, h₁⟩
          simp only
          split
          · refine (follows_declaration hc h₁).bind ?_
            rintro ⟨d', p₂⟩ ⟨_, p₂'⟩ ⟨rfl, h₂⟩
            exact ih (by omega) h₂
          split
          · refine (follows_transition hc h₁).bind ?_
            rintro ⟨d', p₂⟩ ⟨_, p₂'⟩ ⟨rfl, h₂⟩
            exact ih (by omega) h₂
          · exact .fail p₁ _ _

end Items

/-! ## Whole texts -/

/-- At the end of the text the comment lies behind, so it was skipped. -/
theorem Abreast.eq_nil
    (hc : byte '\n' ∉ c) {p p' : Place} (h : Abreast q c last .plain p p')
    (hend : p.skip.rest = []) : p'.skip.rest = [] ∧ last.zone.isRaw = false := by
  have hskip := h.skip rfl hc (by simp [hend])
  rw [Abreast, hend] at hskip
  exact hskip.eq_nil

theorem follows_read (hc : byte '\n' ∉ c) (p q : Text) :
    Follows (Spot.after p) (fun s s' => s = s' ∧ (Spot.after p).zone.isRaw = false)
      (read (p ++ byte '\n' :: q))
      (read (p ++ byte '/' :: byte '/' :: (c ++ byte '\n' :: q))) := by
  have hstart : Abreast q c (Spot.after p) .plain ⟨1, p ++ byte '\n' :: q⟩
      ⟨1, p ++ byte '/' :: byte '/' :: (c ++ byte '\n' :: q)⟩ := .ahead p rfl
  have hlength : (p ++ byte '\n' :: q).length ≤
      (p ++ byte '/' :: byte '/' :: (c ++ byte '\n' :: q)).length := by
    simp only [List.length_append, List.length_cons]
    omega
  refine (follows_word hc hstart).bind ?_
  rintro ⟨word, p₁⟩ ⟨_, p₁'⟩ ⟨rfl, h₁⟩
  simp only
  split
  next => exact .fail p₁ _ _
  next =>
    refine (follows_word hc h₁).bind ?_
    rintro ⟨name, p₂⟩ ⟨_, p₂'⟩ ⟨rfl, h₂⟩
    refine (follows_expect rfl hc (by decide) (by decide) rfl h₂).bind ?_
    intro p₃ p₃' h₃
    refine (follows_items hc (Nat.succ_le_succ hlength) h₃).bind ?_
    rintro ⟨d, p₄⟩ ⟨_, p₄'⟩ ⟨rfl, h₄⟩
    simp only
    split
    next hend =>
      obtain ⟨hend', hlast⟩ := h₄.eq_nil hc (List.isEmpty_iff.mp hend)
      rw [hend', if_pos List.isEmpty_nil]
      exact .ok ⟨rfl, hlast⟩
    next => exact .fail p₄.skip _ _

/-- A comment at the end of a line changes nothing where comments are skipped, and
makes the text unreadable inside a guard, a body or an initial value. -/
theorem comment_ignored_unless_raw
    {p q c : Text} {s : CounterSystem} (hread : read (p ++ byte '\n' :: q) = .ok s)
    (hc : byte '\n' ∉ c) :
    ((Spot.after p).zone.isRaw = false →
        read (p ++ Text.ofString "//" ++ c ++ byte '\n' :: q) = .ok s) ∧
      ((Spot.after p).zone.isRaw = true →
        ∃ e, read (p ++ Text.ofString "//" ++ c ++ byte '\n' :: q) = .error e) := by
  have htext : p ++ Text.ofString "//" ++ c ++ byte '\n' :: q =
      p ++ byte '/' :: byte '/' :: (c ++ byte '\n' :: q) := by
    simp only [List.append_assoc]
    rfl
  rw [htext]
  rcases follows_read hc p q s hread with ⟨s', hs', rfl, hlast⟩ | ⟨hlast, e, he⟩
  · exact ⟨fun _ => hs', fun hraw => absurd hraw (by simp [hlast])⟩
  · exact ⟨fun hplain => absurd hplain (by simp [hlast]), fun _ => ⟨e, he⟩⟩

/-- A text up to a line end in front of an initial value. -/
def countdownToValue : Text :=
  "gal countdown \x7b\n int n ="

/-- The same text up to the first line end of a body. -/
def countdownToBody : Text :=
  countdownToValue ++ Text.ofString "\n 2;\n transition dec [n > 0] \x7b"

/-- What follows the line end in the body. -/
def countdownRest : Text :=
  " n -= 1;\n \x7d\n\x7d\n"

theorem comment_ignored_unless_raw_countdown :
    ∃ s, read (countdownToBody ++ byte '\n' :: countdownRest) = .ok s ∧
      read (countdownToValue ++ Text.ofString "//" ++ Text.ofString " tokens" ++ byte '\n' ::
        (Text.ofString " 2;\n transition dec [n > 0] \x7b" ++ byte '\n' :: countdownRest)) = .ok s ∧
      ∃ e, read (countdownToBody ++ Text.ofString "//" ++ Text.ofString " consume" ++ byte '\n' ::
        countdownRest) = .error e := by
  obtain ⟨s, hread, -⟩ := Description.exists_eq_ok_of_any
    (x := read (countdownToBody ++ byte '\n' :: countdownRest)) (p := fun _ => true)
    (by decide +kernel)
  have hread' : read (countdownToValue ++ byte '\n' ::
      (Text.ofString " 2;\n transition dec [n > 0] \x7b" ++ byte '\n' :: countdownRest)) = .ok s :=
    hread
  exact ⟨s, hread, (comment_ignored_unless_raw hread' (by decide)).1 (by decide +kernel),
    (comment_ignored_unless_raw hread (by decide)).2 (by decide +kernel)⟩

/-- A line of a body cannot end in a comment. -/
theorem comment_in_body_rejected :
    ∃ p q c : Text, ∃ s, byte '\n' ∉ c ∧ read (p ++ byte '\n' :: q) = .ok s ∧
      ∀ s', read (p ++ Text.ofString "//" ++ c ++ byte '\n' :: q) ≠ .ok s' := by
  obtain ⟨s, hread, -⟩ := Description.exists_eq_ok_of_any
    (x := read (countdownToBody ++ byte '\n' :: countdownRest)) (p := fun _ => true)
    (by decide +kernel)
  refine ⟨countdownToBody, countdownRest, " consume", s, by decide, hread, ?_⟩
  have hnone : (read (countdownToBody ++ Text.ofString "//" ++ Text.ofString " consume" ++
      byte '\n' :: countdownRest)).toOption = none := by
    decide +kernel
  intro s' hs'
  rw [hs'] at hnone
  cases hnone

end Population.CounterSystem
