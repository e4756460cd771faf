import Population.Guard
import Population.Proofs.Description.WellFormed
import Population.Proofs.Marking.Key
import Population.Proofs.Text.Trimming

/-!
# Phrases

A comparison and an update are written alike: a name, a sign, and a literal, with
white space around the sign as one likes.  The readers do not scan for the sign.
They look for one sign after the other as a part of the text, a short sign after
the longer ones that begin with it.  Neither a name nor white space nor a literal
holds a sign, except that a literal may start with a plus or a minus, and nothing
that is looked for first can be put together from the sign that stands there and
what follows it.  So the text is cut where the sign is, and nowhere else.
-/

namespace Population

open Text (byte IsWhite IsLiteral Tight)

/-- The signs of comparisons and updates. -/
def phraseSigns : List Text :=
  [">=", "<=", "==", "!=", ">", "<", "+=", "-="]

/-- A visible character that stands neither in names nor in signs. -/
def IsForeign (b : UInt8) : Prop :=
  Name.isPart b = false ∧ (b < 0x80 ∧ Text.isBlankByte b = false) ∧ ∀ sign ∈ phraseSigns, b ∉ sign

instance (b : UInt8) : Decidable (IsForeign b) :=
  inferInstanceAs (Decidable (Name.isPart b = false ∧ (b < 0x80 ∧ Text.isBlankByte b = false) ∧
    ∀ sign ∈ phraseSigns, b ∉ sign))

/-- A name, a sign and a literal as they stand in a text. -/
@[ext]
structure Phrase where
  name : Text
  /-- What separates the name from the sign. -/
  before : Text
  sign : Text
  /-- What separates the sign from the literal. -/
  after : Text
  literal : Text
  /-- The number that the literal stands for. -/
  value : Int64
  name_valid : Name.isValid name = true
  before_white : IsWhite before
  sign_mem : sign ∈ phraseSigns
  after_white : IsWhite after
  literal_value : IsLiteral literal value

namespace Phrase

/-- What stands before the sign. -/
def left (p : Phrase) : Text :=
  p.name ++ p.before

/-- What stands after the sign. -/
def right (p : Phrase) : Text :=
  p.after ++ p.literal

/-- The phrase in writing. -/
def text (p : Phrase) : Text :=
  p.left ++ (p.sign ++ p.right)

variable {p q : Phrase} {b : UInt8}

/-! ## Bytes -/

/-- A visible character outside names does not occur before the sign. -/
theorem not_mem_left (hpart : Name.isPart b = false) (hb : b < 0x80 ∧ Text.isBlankByte b = false) :
    b ∉ p.left :=
  List.not_mem_append (Marking.not_mem_of_isValid p.name_valid hpart) (p.before_white.not_mem hb)

/-- A visible character outside numbers does not occur after the sign. -/
theorem not_mem_right (hb : b < 0x80 ∧ Text.isBlankByte b = false) (hplus : b ≠ byte '+')
    (hminus : b ≠ byte '-') (hdigit : Text.isDigit b = false) : b ∉ p.right := by
  refine List.not_mem_append (p.after_white.not_mem hb) fun hmem => ?_
  rcases p.literal_value.mem hmem with heq | heq | htrue
  · exact hplus heq
  · exact hminus heq
  · rw [hdigit] at htrue
    cases htrue

theorem not_mem_literal {t : Text} {v : Int64} (h : IsLiteral t v) (hb : IsForeign b) : b ∉ t := by
  obtain ⟨hpart, -, hsign⟩ := hb
  intro hmem
  rcases h.mem hmem with rfl | rfl | hdigit
  · exact hsign "+=" (by decide) (by decide)
  · exact hsign "-=" (by decide) (by decide)
  · rw [Name.isPart, Bool.or_eq_false_iff] at hpart
    exact absurd hdigit (by rw [Bool.not_eq_true]; exact hpart.2)

theorem not_mem_text (p : Phrase) (hb : IsForeign b) : b ∉ p.text :=
  List.not_mem_append (not_mem_left hb.1 hb.2.1)
    (List.not_mem_append (hb.2.2 p.sign p.sign_mem)
      (List.not_mem_append (p.after_white.not_mem hb.2.1) (not_mem_literal p.literal_value hb)))

theorem tight_text (p : Phrase) : Tight p.text := by
  have hname := Text.bare_of_isValid p.name_valid
  have hliteral := p.literal_value.bare
  apply Text.tight_of_ends
  · intro b hb
    have hhead : b ∈ p.name.head? := by
      rwa [text, left, List.append_assoc, List.head?_append,
        List.head?_eq_some_head (Name.ne_nil_of_isValid p.name_valid), Option.some_or,
        ← List.head?_eq_some_head] at hb
    exact ⟨hname.ascii b (List.mem_of_head? hhead), hname.head b hhead⟩
  · intro b hb
    have hlast : b ∈ p.literal.getLast? := by
      rwa [text, right, ← List.append_assoc, ← List.append_assoc, List.getLast?_append,
        List.getLast?_eq_some_getLast p.literal_value.ne_nil, Option.some_or,
        ← List.getLast?_eq_some_getLast] at hb
    exact ⟨hliteral.ascii b (List.mem_of_getLast? hlast), hliteral.last b hlast⟩

theorem text_ne_nil (p : Phrase) : p.text ≠ [] := by
  simp [text, left, Name.ne_nil_of_isValid p.name_valid]

/-! ## The two sides -/

theorem trim_left (p : Phrase) : Text.trim p.left = p.name := by
  have htight := (Text.bare_of_isValid p.name_valid).tight
  exact Text.trim_white Text.isWhite_nil htight p.before_white

theorem trim_right (p : Phrase) : Text.trim p.right = p.literal := by
  have h := Text.trim_white p.after_white p.literal_value.bare.tight Text.isWhite_nil
  rwa [List.append_nil] at h

theorem readSides_eq_ok (p : Phrase) (whole : Text) :
    readSides whole p.left p.right = .ok (p.name, p.value) := by
  have hvalue := Text.toInt64?_eq_some_iff.mpr p.literal_value
  simp only [readSides, p.trim_left, p.trim_right, p.name_valid, hvalue]
  rfl

/-- Sides that can be read make a phrase of the text, when no white space stands
at the ends of the text. -/
theorem exists_of_readSides
    {t whole l r sign name : Text} {v : Int64} (ht : Tight t) (htext : t = l ++ (sign ++ r))
    (hsign : sign ∈ phraseSigns) (h : readSides whole l r = .ok (name, v)) :
    ∃ p : Phrase, t = p.text ∧ p.sign = sign ∧ p.name = name ∧ p.value = v := by
  obtain ⟨front, before, hfront, hbefore, hl, -⟩ := Text.exists_trim l
  obtain ⟨after, back, hafter, hback, hr, -⟩ := Text.exists_trim r
  simp only [readSides] at h
  generalize l.trim = core at hl h
  generalize r.trim = literal at hr h
  split at h
  next => cases h
  next hname =>
    rw [Bool.not_eq_true', Bool.not_eq_false] at hname
    split at h
    next => cases h
    next value hvalue =>
      cases h
      have hparts : t = front ++ (name ++ before ++ (sign ++ (after ++ literal))) ++ back := by
        rw [htext, hl, hr]
        simp only [List.append_assoc]
      -- The white space that trimming removes at the outer ends is empty.
      rw [hparts] at ht
      obtain rfl := ht.eq_nil_of_append_right hback
      rw [List.append_nil] at ht hparts
      obtain rfl := ht.eq_nil_of_append hfront
      exact ⟨⟨name, before, sign, after, literal, v, hname, hbefore, hsign, hafter,
        Text.toInt64?_eq_some_iff.mp hvalue⟩, hparts, rfl, rfl, rfl⟩

/-! ## Finding the sign -/

/-- The bytes of which signs are made. -/
theorem sign_byte : ∀ sign ∈ phraseSigns, ∀ b ∈ sign,
    Name.isPart b = false ∧ b < 0x80 ∧ Text.isBlankByte b = false := by
  have hall : ∀ sign ∈ phraseSigns, sign.all
      (fun b => !Name.isPart b && decide (b < 0x80) && !Text.isBlankByte b) = true := by
    decide +kernel
  intro sign hsign b hb
  simpa [and_assoc] using List.all_eq_true.mp (hall sign hsign) b hb

theorem cutAt_sign (p : Phrase) : Text.cutAt p.text p.sign = some (p.left, p.right) := by
  rw [text]
  cases hsign : p.sign with
  | nil => exact absurd p.sign_mem (by rw [hsign]; decide)
  | cons first rest =>
      obtain ⟨hpart, hvisible⟩ := sign_byte p.sign p.sign_mem first (by simp [hsign])
      exact Text.cutAt_append (not_mem_left hpart hvisible) _

/-! ## One way to take a phrase apart -/

/-- What stands before the sign ends at the first byte of a sign. -/
theorem takeWhile_text (p : Phrase) :
    p.text.takeWhile (fun b => !phraseSigns.any fun sign => sign.contains b) = p.left := by
  have hleft : ∀ b ∈ p.left, (!phraseSigns.any fun sign => sign.contains b) = true := by
    intro b hb
    rw [Bool.not_eq_true', List.any_eq_false]
    intro sign hsign hmem
    obtain ⟨hpart, hvisible⟩ := sign_byte sign hsign b (List.contains_iff_mem.mp hmem)
    exact not_mem_left hpart hvisible hb
  rw [text, List.takeWhile_append_of_pos hleft]
  cases hsign : p.sign with
  | nil => exact absurd p.sign_mem (by rw [hsign]; decide)
  | cons first rest =>
      have hfirst : ∃ sign ∈ phraseSigns, first ∈ sign := ⟨p.sign, p.sign_mem, by simp [hsign]⟩
      rw [List.cons_append, List.takeWhile_cons_of_neg (by simpa using hfirst), List.append_nil]

/-- Only an equals sign makes a sign a longer one. -/
theorem eq_concat_of_opens : ∀ s ∈ phraseSigns, ∀ s' ∈ phraseSigns, s.isPrefixOf s' = true →
    s = s' ∨ s' = s ++ [byte '='] := by
  decide

theorem sign_eq_of_opens {s s' r r' : Text} (hs : s ∈ phraseSigns) (hs' : s' ∈ phraseSigns)
    (hr : byte '=' ∉ r) (h : s ++ r = s' ++ r') (hopens : s <+: s') : s = s' := by
  have hcheck : s.isPrefixOf s' = true := List.isPrefixOf_iff_prefix.mpr hopens
  refine (eq_concat_of_opens s hs s' hs' hcheck).resolve_right fun hlonger => ?_
  rw [hlonger, List.append_assoc] at h
  exact hr (by simp [List.append_cancel_left h])

/-- A phrase can be taken apart in one way. -/
theorem text_injective : Function.Injective text := by
  intro p q h
  have hleft : p.left = q.left := by
    rw [← p.takeWhile_text, h, q.takeWhile_text]
  have hrest : p.sign ++ p.right = q.sign ++ q.right := by
    rw [text, text, hleft] at h
    exact List.append_cancel_left h
  have hequals : ∀ p : Phrase, byte '=' ∉ p.right := fun p =>
    not_mem_right (by decide) (by decide) (by decide) (by decide)
  have hsign : p.sign = q.sign := by
    rcases List.prefix_or_prefix_of_prefix (List.prefix_append p.sign p.right)
        (hrest ▸ List.prefix_append q.sign q.right) with hopens | hopens
    · exact sign_eq_of_opens p.sign_mem q.sign_mem (hequals p) hrest hopens
    · exact (sign_eq_of_opens q.sign_mem p.sign_mem (hequals q) hrest.symm hopens).symm
  have hright : p.right = q.right := by
    rw [hsign] at hrest
    exact List.append_cancel_left hrest
  have hname : p.name = q.name := by
    rw [← p.trim_left, hleft, q.trim_left]
  have hliteral : p.literal = q.literal := by
    rw [← p.trim_right, hright, q.trim_right]
  have hbefore : p.before = q.before := by
    rw [left, left, hname] at hleft
    exact List.append_cancel_left hleft
  have hafter : p.after = q.after := by
    rw [right, right, hliteral] at hright
    exact List.append_cancel_right hright
  have hvalue : p.value = q.value := by
    have hp := Text.toInt64?_eq_some_iff.mpr p.literal_value
    have hq := Text.toInt64?_eq_some_iff.mpr q.literal_value
    rw [hliteral, hq] at hp
    exact (Option.some.inj hp).symm
  exact Phrase.ext hname hbefore hsign hafter hliteral hvalue

end Phrase

/-! ## Comparisons -/

namespace Comparator

/-- An operator cannot be found where another one stands between a name and a
number: its first sign is not there, or the first sign of two ends the other
operator. -/
def hiddenBy (op other : Comparator) : Bool :=
  match op.symbol with
  | [] => false
  | first :: rest =>
    !other.symbol.contains first ||
      (rest == [byte '='] && other.symbol.getLast? == some first &&
        !other.symbol.dropLast.contains first)

/-- The order of the search: an operator hides those that are looked for
before. -/
theorem known_hidden : ∀ op ∈ known, ∀ p ∈ known.takeWhile (· != op), p.hiddenBy op = true := by
  decide

theorem known_eq_append : ∀ op ∈ known,
    known = known.takeWhile (· != op) ++ op :: (known.dropWhile (· != op)).tail := by
  decide

theorem symbol_mem : ∀ op ∈ known, op.symbol ∈ phraseSigns := by
  decide

/-- Operators are made of signs that no literal starts with. -/
theorem symbol_byte : ∀ op ∈ known, ∀ b ∈ op.symbol,
    b ≠ byte '+' ∧ b ≠ byte '-' ∧ Text.isDigit b = false := by
  have hall : ∀ op ∈ known, op.symbol.all
      (fun b => b != byte '+' && b != byte '-' && !Text.isDigit b) = true := by
    decide
  intro op hop b hb
  simpa [and_assoc] using List.all_eq_true.mp (hall op hop) b hb

end Comparator

namespace Comparison

variable {p : Phrase} {op other : Comparator} {b : UInt8}

theorem not_mem_sides (p : Phrase) (hop : op ∈ Comparator.known) (hb : b ∈ op.symbol) :
    b ∉ p.left ∧ b ∉ p.right := by
  obtain ⟨hpart, hvisible⟩ := Phrase.sign_byte _ (Comparator.symbol_mem op hop) b hb
  obtain ⟨hplus, hminus, hdigit⟩ := Comparator.symbol_byte op hop b hb
  exact ⟨Phrase.not_mem_left hpart hvisible, Phrase.not_mem_right hvisible hplus hminus hdigit⟩

theorem cutAt_hidden (hop : op ∈ Comparator.known) (hsign : p.sign = other.symbol)
    (hhidden : op.hiddenBy other = true) : Text.cutAt p.text op.symbol = none := by
  cases hsymbol : op.symbol with
  | nil => simp [Comparator.hiddenBy, hsymbol] at hhidden
  | cons first rest =>
      obtain ⟨hleft, hright⟩ := not_mem_sides p hop (b := first) (by simp [hsymbol])
      simp only [Comparator.hiddenBy, hsymbol, Bool.or_eq_true, Bool.and_eq_true,
        Bool.not_eq_true', List.contains_eq_mem, decide_eq_false_iff_not, beq_iff_eq] at hhidden
      rw [Phrase.text, hsign]
      rcases hhidden with habsent | ⟨⟨rfl, hlast⟩, hinit⟩
      · exact Text.cutAt_of_not_mem
          (List.not_mem_append hleft (List.not_mem_append habsent hright))
      -- The first sign is there, but white space or a number follows it and no equals sign.
      · have hother : other.symbol = other.symbol.dropLast ++ [first] :=
          (List.dropLast_append_getLast? first hlast).symm
        have hequals : byte '=' ∉ p.right := (not_mem_sides p hop (by simp [hsymbol])).2
        rw [hother, List.append_assoc _ [first], ← List.append_assoc]
        exact Text.cutAt_broken (List.not_mem_append hleft hinit) hright
          fun hnext => hequals (List.mem_of_head? hnext)

theorem readWith_append (hsign : p.sign = op.symbol) {earlier : List Comparator}
    (later : List Comparator)
    (hearlier : ∀ op ∈ earlier, Text.cutAt p.text op.symbol = none) :
    readWith p.text (earlier ++ op :: later) = .ok ⟨p.name, op, p.value⟩ := by
  induction earlier with
  | nil =>
      have hcut := p.cutAt_sign
      rw [hsign] at hcut
      simp only [List.nil_append, readWith, hcut, p.readSides_eq_ok]
      rfl
  | cons op rest ih =>
      obtain ⟨hfirst, hrest⟩ := List.forall_mem_cons.mp hearlier
      simp only [List.cons_append, readWith, hfirst]
      exact ih hrest

/-- A phrase with the sign of an operator reads as a comparison. -/
theorem read_phrase (hop : op ∈ Comparator.known) (hsign : p.sign = op.symbol) :
    read p.text = .ok ⟨p.name, op, p.value⟩ := by
  rw [read, Comparator.known_eq_append op hop]
  apply readWith_append hsign
  intro earlier hmem
  exact cutAt_hidden ((List.takeWhile_sublist _).subset hmem) hsign
    (Comparator.known_hidden op hop earlier hmem)

theorem exists_phrase_of_readWith
    {atom : Text} {c : Comparison} {ops : List Comparator}
    (hops : ∀ op ∈ ops, op ∈ Comparator.known) (ht : Tight atom) (h : readWith atom ops = .ok c) :
    ∃ p : Phrase, ∃ op ∈ Comparator.known,
      atom = p.text ∧ p.sign = op.symbol ∧ c = ⟨p.name, op, p.value⟩ := by
  induction ops with
  | nil => cases h
  | cons op others ih =>
      obtain ⟨hop, hothers⟩ := List.forall_mem_cons.mp hops
      rw [readWith] at h
      split at h
      next => exact ih hothers h
      next l r hcut =>
        obtain ⟨⟨name, v⟩, hsides, h⟩ := Description.exists_of_bind_eq_ok h
        cases h
        obtain ⟨p, hp, hsign, rfl, rfl⟩ := Phrase.exists_of_readSides ht
          (Text.eq_append_of_cutAt hcut) (Comparator.symbol_mem op hop) hsides
        exact ⟨p, op, hop, hp, hsign, rfl⟩

/-- The comparisons that can be read are the phrases with an operator. -/
theorem read_eq_ok_iff {atom : Text} {c : Comparison} (ht : Tight atom) :
    read atom = .ok c ↔ ∃ p : Phrase, ∃ op ∈ Comparator.known,
      atom = p.text ∧ p.sign = op.symbol ∧ c = ⟨p.name, op, p.value⟩ := by
  constructor
  · exact exists_phrase_of_readWith (fun _ hop => hop) ht
  · rintro ⟨p, op, hop, rfl, hsign, rfl⟩
    exact read_phrase hop hsign

end Comparison

/-! ## Updates -/

namespace Update

variable {p : Phrase}

theorem read_increment (hsign : p.sign = "+=") : read p.text = .ok ⟨p.name, p.value⟩ := by
  have hcut := p.cutAt_sign
  rw [hsign] at hcut
  simp only [read, hcut, p.readSides_eq_ok]
  rfl

/-- A decrement holds no `+=`, also where its literal starts with a plus. -/
theorem cutAt_decrement (hsign : p.sign = "-=") : Text.cutAt p.text "+=" = none := by
  have hleft : byte '+' ∉ p.left := Phrase.not_mem_left (by decide) (by decide)
  have hminus : byte '+' ∉ Text.ofString "-=" := by decide
  have hafter : byte '+' ∉ p.after := p.after_white.not_mem (by decide)
  have hdigits : ∀ {t : Text}, (∀ b ∈ t, Text.isDigit b = true) → byte '+' ∉ t ∧ byte '=' ∉ t := by
    intro t ht
    exact ⟨fun h => absurd (ht _ h) (by decide), fun h => absurd (ht _ h) (by decide)⟩
  obtain ⟨sign, digits, hliteral, -, hall, hcases⟩ := p.literal_value
  obtain ⟨hplus, hequals⟩ := hdigits hall
  rw [Phrase.text, Phrase.right, hsign, hliteral]
  by_cases hpositive : sign = [byte '+']
  · rw [hpositive, List.singleton_append, ← List.append_assoc, ← List.append_assoc]
    exact Text.cutAt_broken (List.not_mem_append (List.not_mem_append hleft hminus) hafter) hplus
      fun hnext => hequals (List.mem_of_head? hnext)
  · have hsignless : byte '+' ∉ sign := by
      rcases hcases with ⟨rfl | rfl, -⟩ | ⟨rfl, -⟩
      · decide
      · exact absurd rfl hpositive
      · decide
    exact Text.cutAt_of_not_mem (List.not_mem_append hleft (List.not_mem_append hminus
      (List.not_mem_append hafter (List.not_mem_append hsignless hplus))))

theorem read_decrement (hsign : p.sign = "-=") : read p.text = .ok ⟨p.name, -p.value⟩ := by
  have hcut := p.cutAt_sign
  rw [hsign] at hcut
  simp only [read, cutAt_decrement hsign, hcut, p.readSides_eq_ok]
  rfl

/-- The updates that can be read are the increments and the decrements. -/
theorem read_eq_ok_iff {statement : Text} {u : Update} (ht : Tight statement) :
    read statement = .ok u ↔ ∃ p : Phrase, statement = p.text ∧
      (p.sign = "+=" ∧ u = ⟨p.name, p.value⟩ ∨ p.sign = "-=" ∧ u = ⟨p.name, -p.value⟩) := by
  constructor
  · intro h
    rw [read] at h
    split at h
    next l r hcut =>
      obtain ⟨⟨name, v⟩, hsides, h⟩ := Description.exists_of_bind_eq_ok h
      cases h
      obtain ⟨p, hp, hsign, rfl, rfl⟩ :=
        Phrase.exists_of_readSides ht (Text.eq_append_of_cutAt hcut) (by decide) hsides
      exact ⟨p, hp, .inl ⟨hsign, rfl⟩⟩
    next =>
      split at h
      next l r hcut =>
        obtain ⟨⟨name, v⟩, hsides, h⟩ := Description.exists_of_bind_eq_ok h
        cases h
        obtain ⟨p, hp, hsign, rfl, rfl⟩ :=
          Phrase.exists_of_readSides ht (Text.eq_append_of_cutAt hcut) (by decide) hsides
        exact ⟨p, hp, .inr ⟨hsign, rfl⟩⟩
      next => cases h
  · rintro ⟨p, rfl, ⟨hsign, rfl⟩ | ⟨hsign, rfl⟩⟩
    · exact read_increment hsign
    · exact read_decrement hsign

end Update

end Population
