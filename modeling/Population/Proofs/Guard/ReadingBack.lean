import Population.CounterSystem.Printer
import Population.Proofs.Guard.Grammar

/-!
# Guards and updates are read back

The printer writes a guard as comparisons between `&&`, the empty guard as
`true`, and an update as an increment or a decrement by a number that is not
negative, as far as there is one.  All of this is in the grammar of what is read,
however much blank stands around an operator: the printer leaves one space on
each side, and a question to an oracle leaves none.
-/

namespace Population

open Text (byte IsPadding)

/-! ## Comparisons -/

namespace Comparison

/-- The comparison with that much blank on each side of the operator. -/
def spelled (gap : Text) (c : Comparison) : Text :=
  (c.name ++ gap) ++ (c.op.symbol ++ (gap ++ Text.ofInt64 c.value))

/-- The printer leaves one space. -/
theorem text_eq (c : Comparison) : c.text = c.spelled [byte ' '] := by
  simp only [text, spelled, Text.cat_cons, Text.cat_nil, List.append_assoc, List.append_nil]
  rfl

variable {gap : Text} {c : Comparison}

/-- A comparison in writing is a phrase with its operator. -/
theorem exists_phrase (hgap : IsPadding gap) (hname : Name.isValid c.name = true)
    (hop : c.op ∈ Comparator.known) :
    ∃ p : Phrase, p.text = c.spelled gap ∧ p.sign = c.op.symbol ∧ c = ⟨p.name, c.op, p.value⟩ :=
  ⟨⟨c.name, gap, c.op.symbol, gap, Text.ofInt64 c.value, c.value, hname, hgap.isWhite,
    Comparator.symbol_mem c.op hop, hgap.isWhite, Text.isLiteral_ofInt64 c.value⟩, rfl, rfl, rfl⟩

theorem spelled_ne_nil (gap : Text) (c : Comparison) : c.spelled gap ≠ [] := by
  simp [spelled, Text.ofInt64_ne_nil]

theorem bare_spelled (hgap : IsPadding gap) (hname : Name.isValid c.name = true)
    (hop : c.op ∈ Comparator.known) : Text.Bare (c.spelled gap) := by
  have hsymbol : Text.IsAscii c.op.symbol := by
    have hall : ∀ op ∈ Comparator.known, Text.IsAscii op.symbol := by decide
    exact hall c.op hop
  have hmiddle : Text.IsAscii (gap ++ c.op.symbol ++ gap) :=
    (hgap.ascii.append hsymbol).append hgap.ascii
  have h := (Text.bare_of_isValid hname).enclose (Name.ne_nil_of_isValid hname) hmiddle
    (Text.bare_ofInt64 c.value) (Text.ofInt64_ne_nil c.value)
  simpa [spelled] using h

end Comparison

/-! ## Guards -/

namespace Guard

/-- The comparisons have identifiers on the left and operators that exist. -/
def IsPlain (g : Guard) : Prop :=
  ∀ c ∈ g, Name.isValid c.name = true ∧ c.op ∈ Comparator.known

instance (g : Guard) : Decidable g.IsPlain :=
  inferInstanceAs (Decidable (∀ c ∈ g, Name.isValid c.name = true ∧ c.op ∈ Comparator.known))

/-- The comparisons between `&&`, with that much blank around each operator. -/
def joined (gap : Text) (g : Guard) : Text :=
  Text.join " && " (g.map (Comparison.spelled gap))

variable {gap : Text} {c : Comparison} {g : Guard}

theorem text_cons (c : Comparison) (g : Guard) :
    text (c :: g) = joined [byte ' '] (c :: g) := by
  have hspelled : Comparison.text = Comparison.spelled [byte ' '] := funext Comparison.text_eq
  rw [text, joined, hspelled]
  exact fun h => List.cons_ne_nil c g h

theorem atom_spelled
    {pad rest : Text} (hgap : IsPadding gap) (hpad : IsPadding pad) (hrest : IsPadding rest)
    (hc : Name.isValid c.name = true ∧ c.op ∈ Comparator.known) :
    Atom (pad ++ c.spelled gap ++ rest) (some c) := by
  obtain ⟨p, htext, hsign, hp⟩ := Comparison.exists_phrase hgap hc.1 hc.2
  rw [← htext]
  exact ⟨p.text, ⟨pad, rest, hpad.isWhite, hrest.isWhite, rfl, p.tight_text⟩,
    .inr ⟨p, c.op, hc.2, rfl, hsign, congrArg some hp⟩⟩

/-- The atoms of a guard in writing are its comparisons, with blanks where they
meet a connective. -/
theorem exists_atoms_joined
    {pad : Text} (hgap : IsPadding gap) (hpad : IsPadding pad) (hg : IsPlain (c :: g)) :
    ∃ atoms parts, atoms ≠ [] ∧ pad ++ joined gap (c :: g) = Text.join "&&" atoms ∧
      List.Forall₂ Atom atoms parts ∧ c :: g = parts.filterMap id := by
  have hnone : IsPadding [] := by decide
  have hblank : IsPadding [byte ' '] := by decide
  induction g generalizing c pad with
  | nil =>
      refine ⟨[pad ++ c.spelled gap ++ []], [some c], List.cons_ne_nil _ _, ?_,
        .cons (atom_spelled hgap hpad hnone (hg c List.mem_cons_self)) .nil, rfl⟩
      simp [joined, Text.join]
  | cons c' rest ih =>
      have hrest : IsPlain (c' :: rest) := fun x hx => hg x (List.mem_cons_of_mem c hx)
      obtain ⟨atoms, parts, hne, hjoin, hatoms, hparts⟩ := ih hblank hrest
      obtain ⟨atom, atoms, rfl⟩ := List.exists_cons_of_ne_nil hne
      refine ⟨(pad ++ c.spelled gap ++ [byte ' ']) :: atom :: atoms, some c :: parts,
        List.cons_ne_nil _ _, ?_,
        .cons (atom_spelled hgap hpad hblank (hg c List.mem_cons_self)) hatoms,
        congrArg (c :: ·) hparts⟩
      rw [Text.join_cons_cons, ← hjoin]
      simp only [joined, List.map_cons, Text.join_cons_cons, List.append_assoc]
      rfl

theorem joined_ne_nil (gap : Text) (c : Comparison) (g : Guard) : joined gap (c :: g) ≠ [] := by
  cases g with
  | nil => simp [joined, Text.join, Comparison.spelled_ne_nil]
  | cons c' rest => simp [joined, Text.join_cons_cons, Comparison.spelled_ne_nil]

theorem bare_joined (hgap : IsPadding gap) (hg : IsPlain (c :: g)) :
    Text.Bare (joined gap (c :: g)) := by
  induction g generalizing c with
  | nil =>
      have hc := hg c List.mem_cons_self
      simpa [joined, Text.join] using Comparison.bare_spelled hgap hc.1 hc.2
  | cons c' rest ih =>
      have hc := hg c List.mem_cons_self
      have hrest := ih fun x hx => hg x (List.mem_cons_of_mem c hx)
      have hmiddle : Text.IsAscii (Text.ofString " && ") := by decide
      have h := (Comparison.bare_spelled hgap hc.1 hc.2).enclose
        (Comparison.spelled_ne_nil gap c) hmiddle hrest (joined_ne_nil gap c' rest)
      simpa [joined, Text.join_cons_cons] using h

/-- A guard in writing is read back, however much blank it holds. -/
theorem read_joined (hgap : IsPadding gap) (hg : IsPlain (c :: g)) :
    read (joined gap (c :: g)) = .ok (c :: g) := by
  obtain ⟨atoms, parts, hne, hjoin, hatoms, hparts⟩ :=
    exists_atoms_joined hgap (by decide : IsPadding []) hg
  have hstrips := Text.trim_eq_iff.mp (Text.trim_bare (bare_joined hgap hg))
  exact read_eq_ok_iff.mpr
    ⟨_, atoms, parts, hstrips, joined_ne_nil gap c g, hne, hjoin, hatoms, hparts⟩

/-- A guard is read back. -/
theorem read_text (hg : IsPlain g) : read g.text = .ok g := by
  cases g with
  | nil => rfl
  | cons c rest =>
      rw [text_cons]
      exact read_joined (by decide) hg

/-- The bracket that closes a guard does not occur in it. -/
theorem bracket_not_mem_text (hg : IsPlain g) : byte ']' ∉ g.text := by
  cases g with
  | nil => decide
  | cons c rest =>
      have hsep : byte ']' ∉ Text.ofString " && " := by decide
      rw [text_cons]
      refine Text.not_mem_join hsep (List.forall_mem_map.mpr fun c' hc' => ?_)
      obtain ⟨hname, hop⟩ := hg c' hc'
      have hgap : IsPadding [byte ' '] := by decide
      obtain ⟨p, htext, -⟩ := Comparison.exists_phrase hgap hname hop
      rw [← htext]
      exact p.not_mem_text (by decide)

end Guard

/-! ## Updates -/

namespace Update

/-- The statement without the semicolon that ends it. -/
def statement (u : Update) : Text :=
  if u.delta < 0 then Text.cat [u.name, " -= ", Text.ofInt64 (-u.delta)]
  else Text.cat [u.name, " += ", Text.ofInt64 u.delta]

theorem text_eq (u : Update) : u.text = u.statement ++ [byte ';'] := by
  unfold text statement
  split
  · simp only [Text.cat_cons, Text.cat_nil, List.append_assoc, List.append_nil]
    rfl
  · simp only [Text.cat_cons, Text.cat_nil, List.append_assoc, List.append_nil]
    rfl

/-- A statement in writing is a phrase that says what is added. -/
theorem exists_phrase {u : Update} (hname : Name.isValid u.name = true) :
    ∃ p : Phrase, p.text = u.statement ∧
      (p.sign = "+=" ∧ u = ⟨p.name, p.value⟩ ∨ p.sign = "-=" ∧ u = ⟨p.name, -p.value⟩) := by
  have hblank : Text.IsWhite [byte ' '] := IsPadding.isWhite (by decide)
  unfold statement
  split
  · refine ⟨⟨u.name, [byte ' '], "-=", [byte ' '], Text.ofInt64 (-u.delta), -u.delta, hname, hblank,
      by decide, hblank, Text.isLiteral_ofInt64 _⟩, ?_, .inr ⟨rfl, by rw [Int64.neg_neg]⟩⟩
    simp only [Phrase.text, Phrase.left, Phrase.right, Text.cat_cons, Text.cat_nil,
      List.append_assoc, List.append_nil]
    rfl
  · refine ⟨⟨u.name, [byte ' '], "+=", [byte ' '], Text.ofInt64 u.delta, u.delta, hname, hblank,
      by decide, hblank, Text.isLiteral_ofInt64 _⟩, ?_, .inl ⟨rfl, rfl⟩⟩
    simp only [Phrase.text, Phrase.left, Phrase.right, Text.cat_cons, Text.cat_nil,
      List.append_assoc, List.append_nil]
    rfl

end Update

namespace Updates

variable {us : Updates}

/-- Updates are printed one by one, with a blank between them. -/
theorem text_cons (u : Update) (us : Updates) :
    ∃ pad, IsPadding pad ∧ text (u :: us) = u.statement ++ byte ';' :: (pad ++ text us) := by
  cases us with
  | nil =>
      refine ⟨[], by decide, ?_⟩
      simp [text, Text.join, Update.text_eq]
  | cons u' rest =>
      refine ⟨[byte ' '], by decide, ?_⟩
      simp only [text, List.map_cons, Text.join_cons_cons, Update.text_eq, List.append_assoc]
      rfl

theorem statement_padding {pad : Text} (hpad : IsPadding pad) : Statement pad none :=
  ⟨[], ⟨pad, [], hpad.isWhite, Text.isWhite_nil, by simp, Text.tight_nil⟩, .inl ⟨rfl, rfl⟩⟩

theorem statement_statement
    {pad : Text} {u : Update} (hpad : IsPadding pad) (hu : Name.isValid u.name = true) :
    Statement (pad ++ u.statement) (some u) := by
  obtain ⟨p, htext, hsign⟩ := Update.exists_phrase hu
  rw [← htext]
  refine ⟨p.text, ⟨pad, [], hpad.isWhite, Text.isWhite_nil, by simp, p.tight_text⟩,
    .inr ⟨p, rfl, ?_⟩⟩
  exact hsign.imp (fun h => ⟨h.1, congrArg some h.2⟩) fun h => ⟨h.1, congrArg some h.2⟩

/-- The pieces of updates in writing are the statements, and the blanks behind the
last semicolon. -/
theorem exists_pieces_text
    {pad rest : Text} (hpad : IsPadding pad) (hrest : IsPadding rest)
    (hus : ∀ u ∈ us, Name.isValid u.name = true) :
    ∃ pieces parts, pieces ≠ [] ∧ pad ++ text us ++ rest = Text.join ";" pieces ∧
      List.Forall₂ Statement pieces parts ∧ us = parts.filterMap id := by
  induction us generalizing pad with
  | nil =>
      refine ⟨[pad ++ rest], [none], List.cons_ne_nil _ _, ?_,
        .cons (statement_padding (hpad.append hrest)) .nil, rfl⟩
      simp [text, Text.join]
  | cons u us ih =>
      obtain ⟨hu, hus⟩ := List.forall_mem_cons.mp hus
      obtain ⟨pad', hpad', htext⟩ := text_cons u us
      obtain ⟨pieces, parts, hne, hjoin, hpieces, hparts⟩ := ih hpad' hus
      obtain ⟨piece, pieces, rfl⟩ := List.exists_cons_of_ne_nil hne
      refine ⟨(pad ++ u.statement) :: piece :: pieces, some u :: parts, List.cons_ne_nil _ _, ?_,
        .cons (statement_statement hpad hu) hpieces, congrArg (u :: ·) hparts⟩
      rw [Text.join_cons_cons, ← hjoin, htext]
      simp only [List.append_assoc, List.cons_append]
      rfl

/-- Updates are read back, whatever blanks surround them. -/
theorem read_text
    {pad rest : Text} (hpad : IsPadding pad) (hrest : IsPadding rest)
    (hus : ∀ u ∈ us, Name.isValid u.name = true) : read (pad ++ text us ++ rest) = .ok us :=
  read_eq_ok_iff.mpr (exists_pieces_text hpad hrest hus)

/-- The brace that closes a body does not occur in it. -/
theorem brace_not_mem_text (hus : ∀ u ∈ us, Name.isValid u.name = true) :
    byte '\x7d' ∉ text us := by
  have hsep : byte '\x7d' ∉ Text.ofString " " := by decide
  refine Text.not_mem_join hsep (List.forall_mem_map.mpr fun u hu => ?_)
  obtain ⟨p, htext, -⟩ := Update.exists_phrase (hus u hu)
  rw [Update.text_eq, ← htext]
  exact List.not_mem_append (p.not_mem_text (by decide)) (by decide)

end Updates

end Population
