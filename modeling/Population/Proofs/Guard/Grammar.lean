import Population.Proofs.Guard.Phrase

/-!
# The grammar of guards and updates

A guard is a list of atoms between `&&`: the word `true`, or a comparison.  A
sequence of updates is a list of statements between semicolons: blanks, an
increment, or a decrement.  The readers accept these texts and no others, and
what they return is what stands there.  Neither connective can occur inside an
atom or a statement, so the pieces that the readers split off are the ones that
the grammar names.
-/

namespace Population

open Text (byte Strips)
open Description (exists_of_bind_eq_ok mapM_eq_ok_iff)

theorem forall_left_of_forall₂ {α β : Type} {R : α → β → Prop} {P : α → Prop}
    (hR : ∀ a b, R a b → P a) {xs : List α} {ys : List β} (h : List.Forall₂ R xs ys) :
    ∀ a ∈ xs, P a := by
  induction h with
  | nil => exact fun a ha => absurd ha List.not_mem_nil
  | cons hab _ ih => exact List.forall_mem_cons.mpr ⟨hR _ _ hab, ih⟩

theorem forall_right_of_forall₂ {α β : Type} {R : α → β → Prop} {P : β → Prop}
    (hR : ∀ a b, R a b → P b) {xs : List α} {ys : List β} (h : List.Forall₂ R xs ys) :
    ∀ b ∈ ys, P b :=
  forall_left_of_forall₂ (fun b a => hR a b) (List.Forall₂.flip h)

/-! ## Guards -/

namespace Guard

/-- An atom, with white space around it, and the comparison that it adds to the
guard. -/
def Atom (atom : Text) (part : Option Comparison) : Prop :=
  ∃ core, Strips atom core ∧
    (Text.lower core = "true" ∧ part = none ∨
      ∃ p : Phrase, ∃ op ∈ Comparator.known,
        core = p.text ∧ p.sign = op.symbol ∧ part = some ⟨p.name, op, p.value⟩)

/-- The text of a guard, with white space around it. -/
def Written (t : Text) (g : Guard) : Prop :=
  ∃ core atoms parts, Strips t core ∧ core ≠ [] ∧ atoms ≠ [] ∧ core = Text.join "&&" atoms ∧
    List.Forall₂ Atom atoms parts ∧ g = parts.filterMap id

/-- An operator makes a comparison differ from the word `true`. -/
theorem lower_phrase_ne {p : Phrase} {op : Comparator} (hop : op ∈ Comparator.known)
    (hsign : p.sign = op.symbol) : Text.lower p.text ≠ "true" := by
  have hforeign : ∀ op ∈ Comparator.known,
      ∃ b ∈ op.symbol, Text.lowerByte b ∉ Text.ofString "true" := by
    decide
  obtain ⟨b, hb, hforeign⟩ := hforeign op hop
  intro heq
  have hmem : Text.lowerByte b ∈ Text.lower p.text :=
    List.mem_map_of_mem (by simp [Phrase.text, hsign, hb])
  exact hforeign (heq ▸ hmem)

/-- An atom is read as what it adds. -/
theorem readAtom_eq_ok_iff {atom : Text} {part : Option Comparison} :
    (if (Text.trim atom).sameIgnoringCase "true" then .ok none
      else (Comparison.read (Text.trim atom)).map some) = .ok part ↔ Atom atom part := by
  have hword : (Text.trim atom).sameIgnoringCase "true" = true ↔
      Text.lower (Text.trim atom) = "true" := by
    have hlower : Text.lower "true" = Text.ofString "true" := by decide
    rw [Text.sameIgnoringCase, hlower, beq_iff_eq]
  have hstrips : Strips atom (Text.trim atom) := Text.trim_eq_iff.mp rfl
  by_cases htrue : Text.lower (Text.trim atom) = "true"
  · rw [if_pos (hword.mpr htrue)]
    constructor
    · rintro ⟨⟩
      exact ⟨_, hstrips, .inl ⟨htrue, rfl⟩⟩
    · rintro ⟨core, hcore, ⟨-, rfl⟩ | ⟨p, op, hop, rfl, hsign, -⟩⟩
      · rfl
      · rw [Text.trim_eq_iff.mpr hcore] at htrue
        exact absurd htrue (lower_phrase_ne hop hsign)
  · rw [if_neg fun h => htrue (hword.mp h)]
    constructor
    · intro h
      cases hread : Comparison.read (Text.trim atom) with
      | error e => simp [hread, Except.map] at h
      | ok c =>
          rw [hread] at h
          cases h
          obtain ⟨p, op, hop, hp, hsign, rfl⟩ := (Comparison.read_eq_ok_iff hstrips.tight).mp hread
          exact ⟨_, hstrips, .inr ⟨p, op, hop, hp, hsign, rfl⟩⟩
    · rintro ⟨core, hcore, ⟨hlower, -⟩ | ⟨p, op, hop, rfl, hsign, rfl⟩⟩
      · rw [Text.trim_eq_iff.mpr hcore] at htrue
        exact absurd hlower htrue
      · rw [Text.trim_eq_iff.mpr hcore, Comparison.read_phrase hop hsign]
        rfl

theorem readAtoms_eq_ok_iff {atoms : List Text} {g : Guard} :
    readAtoms atoms = .ok g ↔ ∃ parts, List.Forall₂ Atom atoms parts ∧ g = parts.filterMap id := by
  have hparts : ∀ parts, atoms.mapM (fun atom =>
      let atom := Text.trim atom
      if atom.sameIgnoringCase "true" then .ok none else (Comparison.read atom).map some) =
        .ok parts ↔ List.Forall₂ Atom atoms parts := by
    intro parts
    rw [mapM_eq_ok_iff]
    exact ⟨fun h => h.imp fun _ _ => readAtom_eq_ok_iff.mp,
      fun h => h.imp fun _ _ => readAtom_eq_ok_iff.mpr⟩
  constructor
  · intro h
    obtain ⟨parts, hread, h⟩ := exists_of_bind_eq_ok h
    cases h
    exact ⟨parts, (hparts parts).mp hread, rfl⟩
  · rintro ⟨parts, hatoms, rfl⟩
    rw [readAtoms, (hparts parts).mpr hatoms]
    rfl

/-- No other character occurs in an atom. -/
theorem Atom.not_mem
    {atom : Text} {part : Option Comparison} (h : Atom atom part) {b : UInt8} (hb : IsForeign b) :
    b ∉ atom := by
  have hword : ∀ b, Name.isPart b = false → Text.lowerByte b ∉ Text.ofString "true" :=
    Text.forall_byte (by decide +kernel)
  obtain ⟨core, ⟨left, right, hleft, hright, rfl, -⟩, hcore⟩ := h
  refine List.not_mem_append (List.not_mem_append (hleft.not_mem hb.2.1) ?_) (hright.not_mem hb.2.1)
  rcases hcore with ⟨hlower, -⟩ | ⟨p, op, -, rfl, -⟩
  · intro hmem
    have hlow : Text.lowerByte b ∈ Text.lower core := List.mem_map_of_mem hmem
    rw [hlower] at hlow
    exact hword b hb.1 hlow
  · exact p.not_mem_text hb

/-- The guards that can be read. -/
theorem read_eq_ok_iff {t : Text} {g : Guard} : read t = .ok g ↔ Written t g := by
  have hstrips : Strips t (Text.trim t) := Text.trim_eq_iff.mp rfl
  constructor
  · intro h
    simp only [read] at h
    split at h
    next => cases h
    next hne =>
      obtain ⟨parts, hatoms, rfl⟩ := readAtoms_eq_ok_iff.mp h
      have hjoin : Text.join "&&" (Text.splitPair (byte '&') (byte '&') t.trim) = t.trim :=
        Text.join_splitPair t.trim
      have hne : t.trim ≠ [] := fun hnil => hne (List.isEmpty_iff.mpr hnil)
      have hatoms_ne : Text.splitPair (byte '&') (byte '&') t.trim ≠ [] := by
        intro hnil
        rw [hnil] at hjoin
        exact hne hjoin.symm
      exact ⟨_, _, parts, hstrips, hne, hatoms_ne, hjoin.symm, hatoms, rfl⟩
  · rintro ⟨core, atoms, parts, hcore, hne, hatoms_ne, rfl, hatoms, rfl⟩
    have hamp : IsForeign (byte '&') := by decide
    have hfree := forall_left_of_forall₂ (fun _ _ h => h.not_mem hamp) hatoms
    have hsplit : Text.splitPair (byte '&') (byte '&') (Text.join "&&" atoms) = atoms :=
      Text.splitPair_join hatoms_ne hfree
    have hne' : ¬(Text.join "&&" atoms).isEmpty = true := fun h => hne (List.isEmpty_iff.mp h)
    simp only [read, Text.trim_eq_iff.mpr hcore, if_neg hne', hsplit]
    exact readAtoms_eq_ok_iff.mpr ⟨parts, hatoms, rfl⟩

/-- No other character occurs in a guard that can be read. -/
theorem not_mem_of_read {t : Text} {g : Guard} (h : read t = .ok g) {b : UInt8} (hb : IsForeign b)
    (hamp : b ≠ byte '&') : b ∉ t := by
  obtain ⟨core, atoms, parts, ⟨left, right, hleft, hright, rfl, -⟩, -, -, rfl, hatoms, -⟩ :=
    read_eq_ok_iff.mp h
  have hsep : b ∉ Text.ofString "&&" := by
    have htext : Text.ofString "&&" = [byte '&', byte '&'] := by decide
    simp [htext, hamp]
  have hfree := forall_left_of_forall₂ (fun _ _ h => h.not_mem hb) hatoms
  exact List.not_mem_append (List.not_mem_append (hleft.not_mem hb.2.1)
    (Text.not_mem_join hsep hfree)) (hright.not_mem hb.2.1)

end Guard

/-! ## Updates -/

namespace Updates

/-- A statement without its semicolon, and the update that it adds. -/
def Statement (piece : Text) (part : Option Update) : Prop :=
  ∃ core, Strips piece core ∧
    (core = [] ∧ part = none ∨
      ∃ p : Phrase, core = p.text ∧
        (p.sign = "+=" ∧ part = some ⟨p.name, p.value⟩ ∨
          p.sign = "-=" ∧ part = some ⟨p.name, -p.value⟩))

/-- The text of a sequence of updates. -/
def Written (t : Text) (us : Updates) : Prop :=
  ∃ pieces parts, pieces ≠ [] ∧ t = Text.join ";" pieces ∧ List.Forall₂ Statement pieces parts ∧
    us = parts.filterMap id

theorem Statement.not_mem
    {piece : Text} {part : Option Update} (h : Statement piece part) {b : UInt8}
    (hb : IsForeign b) : b ∉ piece := by
  obtain ⟨core, ⟨left, right, hleft, hright, rfl, -⟩, hcore⟩ := h
  refine List.not_mem_append (List.not_mem_append (hleft.not_mem hb.2.1) ?_) (hright.not_mem hb.2.1)
  rcases hcore with ⟨rfl, -⟩ | ⟨p, rfl, -⟩
  · exact List.not_mem_nil
  · exact p.not_mem_text hb

/-- A statement is skipped, or it is read as the update that it adds. -/
theorem statement_iff {piece : Text} {part : Option Update} :
    Statement piece part ↔ piece.trim = [] ∧ part = none ∨
      piece.trim ≠ [] ∧ ∃ u, Update.read piece.trim = .ok u ∧ part = some u := by
  constructor
  · rintro ⟨core, hcore, ⟨rfl, rfl⟩ | ⟨p, rfl, hsign⟩⟩
    · exact .inl ⟨Text.trim_eq_iff.mpr hcore, rfl⟩
    · rw [Text.trim_eq_iff.mpr hcore]
      rcases hsign with ⟨hsign, rfl⟩ | ⟨hsign, rfl⟩
      · exact .inr ⟨p.text_ne_nil, _, Update.read_increment hsign, rfl⟩
      · exact .inr ⟨p.text_ne_nil, _, Update.read_decrement hsign, rfl⟩
  · have hstrips : Strips piece piece.trim := Text.trim_eq_iff.mp rfl
    rintro (⟨hnil, rfl⟩ | ⟨-, u, hu, rfl⟩)
    · exact ⟨[], hnil ▸ hstrips, .inl ⟨rfl, rfl⟩⟩
    · refine ⟨_, hstrips, .inr ?_⟩
      obtain ⟨p, hp, ⟨hsign, rfl⟩ | ⟨hsign, rfl⟩⟩ := (Update.read_eq_ok_iff hstrips.tight).mp hu
      · exact ⟨p, hp, .inl ⟨hsign, rfl⟩⟩
      · exact ⟨p, hp, .inr ⟨hsign, rfl⟩⟩

/-- Statements are read one by one. -/
theorem readPieces_eq_ok_iff {pieces : List Text} {us : Updates} :
    ((pieces.map Text.trim).filter fun s => !s.isEmpty).mapM Update.read = .ok us ↔
      ∃ parts, List.Forall₂ Statement pieces parts ∧ us = parts.filterMap id := by
  induction pieces generalizing us with
  | nil =>
      simp only [List.forall₂_nil_left_iff]
      constructor
      · rintro ⟨⟩
        exact ⟨[], rfl, rfl⟩
      · rintro ⟨parts, rfl, rfl⟩
        rfl
  | cons piece rest ih =>
      simp only [List.forall₂_cons_left_iff, statement_iff, List.map_cons]
      by_cases hnil : piece.trim = []
      · rw [List.filter_cons_of_neg (by simp [hnil]), ih]
        constructor
        · rintro ⟨parts, hparts, rfl⟩
          exact ⟨none :: parts, ⟨none, parts, .inl ⟨hnil, rfl⟩, hparts, rfl⟩, rfl⟩
        · rintro ⟨-, ⟨part, parts, hpart, hparts, rfl⟩, rfl⟩
          rcases hpart with ⟨-, rfl⟩ | ⟨hne, -⟩
          · exact ⟨parts, hparts, rfl⟩
          · exact absurd hnil hne
      · rw [List.filter_cons_of_pos (by simp [hnil]), List.mapM_cons]
        constructor
        · intro h
          obtain ⟨u, hu, h⟩ := exists_of_bind_eq_ok h
          obtain ⟨us', hus, h⟩ := exists_of_bind_eq_ok h
          cases h
          obtain ⟨parts, hparts, rfl⟩ := ih.mp hus
          exact ⟨some u :: parts, ⟨some u, parts, .inr ⟨hnil, u, hu, rfl⟩, hparts, rfl⟩, rfl⟩
        · rintro ⟨-, ⟨part, parts, hpart, hparts, rfl⟩, rfl⟩
          obtain ⟨-, u, hu, rfl⟩ := hpart.resolve_left fun h => hnil h.1
          rw [hu, ih.mpr ⟨parts, hparts, rfl⟩]
          rfl

/-- The sequences of updates that can be read. -/
theorem read_eq_ok_iff {t : Text} {us : Updates} : read t = .ok us ↔ Written t us := by
  rw [read, readPieces_eq_ok_iff]
  constructor
  · rintro ⟨parts, hpieces, rfl⟩
    have hjoin : Text.join ";" (Text.split (byte ';') t) = t := Text.join_split (byte ';') t
    exact ⟨_, parts, Text.split_ne_nil (byte ';') t, hjoin.symm, hpieces, rfl⟩
  · rintro ⟨pieces, parts, hne, rfl, hpieces, rfl⟩
    have hsemicolon : IsForeign (byte ';') := by decide
    have hfree := forall_left_of_forall₂ (fun _ _ h => h.not_mem hsemicolon) hpieces
    have hsplit : Text.split (byte ';') (Text.join ";" pieces) = pieces := Text.split_join hne hfree
    rw [hsplit]
    exact ⟨parts, hpieces, rfl⟩

/-- No other character occurs in updates that can be read. -/
theorem not_mem_of_read {t : Text} {us : Updates} (h : read t = .ok us) {b : UInt8}
    (hb : IsForeign b) (hsemicolon : b ≠ byte ';') : b ∉ t := by
  obtain ⟨pieces, parts, -, rfl, hpieces, -⟩ := read_eq_ok_iff.mp h
  have hsep : b ∉ Text.ofString ";" := by
    have htext : Text.ofString ";" = [byte ';'] := by decide
    simp [htext, hsemicolon]
  exact Text.not_mem_join hsep (forall_left_of_forall₂ (fun _ _ h => h.not_mem hb) hpieces)

end Updates

/-- Guards and updates are read from exactly the texts of their grammar, and a
comparison or a statement can be taken apart in one way. -/
theorem formulas_read_exactly :
    (∀ t g, Guard.read t = .ok g ↔ Guard.Written t g) ∧
      (∀ t us, Updates.read t = .ok us ↔ Updates.Written t us) ∧
      Function.Injective Phrase.text :=
  ⟨fun _ _ => Guard.read_eq_ok_iff, fun _ _ => Updates.read_eq_ok_iff, Phrase.text_injective⟩

/-- A sign in front of the literal is not mistaken for a part of the operator. -/
example :
    (Updates.read "a -= +1;; b+=-2;").toOption = some [⟨"a", -1⟩, ⟨"b", -2⟩] ∧
      (Guard.read "TRUE && a>=-1").toOption = some [⟨"a", .ge, -1⟩] ∧
      (Guard.read "a >== 1").toOption = none := by
  decide +kernel

end Population
