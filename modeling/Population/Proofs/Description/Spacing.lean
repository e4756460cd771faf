import Population.Proofs.Description.Insertion

/-!
# White space beside delimiters

The reader cuts lists at commas and white space and trims what stands between
delimiters, so white space beside a colon or a comma is lost.  One section is
different: before the agent states are cut, only narrow blanks are removed beside
their colons.  Any other white space there separates a state from its weight, and
the description is refused.
-/

namespace Population

open Text (byte IsWhite IsNarrow items isNarrowBlank trimNarrowLeft trimNarrowRight)

namespace Description

/-! ## The agent states without blanks beside colons -/

section Colons

variable {w z : Text}

/-- No colon and no narrow blank, at least one byte. -/
structure Solid (z : Text) : Prop where
  ne_nil : z ≠ []
  inner : ∀ b ∈ z, b ≠ byte ':' ∧ isNarrowBlank b = false

theorem solid_comma : Solid [byte ','] :=
  ⟨List.cons_ne_nil _ _, List.forall_mem_singleton.mpr (by decide)⟩

/-- A blank that is not narrow stays where it is. -/
theorem solid_wide {c : Char} (hc : Text.isBlank c = true)
    (hwide : ¬IsNarrow (String.utf8EncodeChar c)) : Solid (String.utf8EncodeChar c) where
  ne_nil := Text.bytes_ne_nil (.scalar c)
  inner b hb := by
    refine ⟨?_, Text.isNarrowBlank_eq_false_of_mem hwide hb⟩
    rintro rfl
    have hwhite : IsWhite (String.utf8EncodeChar c) := by simpa using Text.isWhite_nil.cons hc
    exact hwhite.not_mem (by decide) hb

theorem Solid.not_mem (hz : Solid z) : byte ':' ∉ z :=
  fun h => (hz.inner _ h).1 rfl

theorem Solid.trimNarrowLeft_append (hz : Solid z) (s t : Text) :
    trimNarrowLeft (s ++ (z ++ t)) = trimNarrowLeft s ++ (z ++ t) := by
  obtain ⟨b, rest, rfl⟩ := List.exists_cons_of_ne_nil hz.ne_nil
  exact Text.trimNarrowLeft_append_cons (hz.inner b List.mem_cons_self).2 s (rest ++ t)

theorem Solid.trimNarrowRight_append (hz : Solid z) (s t : Text) :
    trimNarrowRight (s ++ (z ++ t)) = s ++ (z ++ trimNarrowRight t) := by
  obtain ⟨front, b, rfl⟩ := List.eq_nil_or_concat' z |>.resolve_left hz.ne_nil
  have hb := (hz.inner b (by simp)).2
  have h := Text.trimNarrowRight_append_cons hb (s ++ front) t
  simpa using h

theorem isNarrowBlank_colon : isNarrowBlank (byte ':') = false := by
  decide

/-- White space holds no colon. -/
theorem not_mem_colon_of_isWhite (hw : IsWhite w) : byte ':' ∉ w :=
  hw.not_mem (by decide)

/-- Blanks are removed on each side of a solid piece apart from the other side. -/
theorem tightenColons_append_solid (hz : Solid z) (s t : Text) :
    tightenColons (s ++ (z ++ t)) = tightenColons s ++ (z ++ tightenColons t) := by
  induction s using Text.split_induction (byte ':') with
  | piece s hs =>
      rw [tightenColons_of_not_mem hs]
      by_cases hmem : byte ':' ∈ t
      · obtain ⟨first, rest, rfl, hfirst⟩ := List.eq_append_cons_of_mem hmem
        have hnone : byte ':' ∉ s ++ (z ++ first) := by
          simp [hs, hz.not_mem, hfirst]
        have hcut : s ++ (z ++ (first ++ byte ':' :: rest)) =
            s ++ (z ++ first) ++ byte ':' :: rest := by simp
        rw [hcut, tightenColons_append_cons hnone, tightenColons_append_cons hfirst,
          hz.trimNarrowRight_append, List.append_assoc, List.append_assoc]
      · have hnone : byte ':' ∉ s ++ (z ++ t) := by
          simp [hs, hz.not_mem, hmem]
        rw [tightenColons_of_not_mem hnone, tightenColons_of_not_mem hmem]
  | step s rest hs ih =>
      rw [List.append_assoc, List.cons_append, tightenColons_append_cons hs, ih,
        hz.trimNarrowLeft_append, tightenColons_append_cons hs, List.append_assoc,
        List.cons_append]

/-- Narrow blanks are removed on both sides of a colon. -/
theorem tightenColons_append_colon (s t : Text) :
    tightenColons (s ++ byte ':' :: t) =
      trimNarrowRight (tightenColons s) ++ byte ':' :: trimNarrowLeft (tightenColons t) := by
  induction s using Text.split_induction (byte ':') with
  | piece s hs => rw [tightenColons_append_cons hs, tightenColons_of_not_mem hs]
  | step s rest hs ih =>
      rw [List.append_assoc, List.cons_append, tightenColons_append_cons hs, ih,
        Text.trimNarrowLeft_append_cons isNarrowBlank_colon, Text.trimNarrowLeft_trimNarrowRight,
        tightenColons_append_cons hs, Text.trimNarrowRight_append_cons isNarrowBlank_colon,
        List.append_assoc, List.cons_append]

theorem trimNarrowRight_tightenColons_append (hw : IsNarrow w) (s : Text) :
    trimNarrowRight (tightenColons (s ++ w)) = trimNarrowRight (tightenColons s) := by
  have hnone := not_mem_colon_of_isWhite hw.isWhite
  induction s using Text.split_induction (byte ':') with
  | piece s hs =>
      have hall : byte ':' ∉ s ++ w := fun hmem => (List.mem_append.mp hmem).elim hs hnone
      rw [tightenColons_of_not_mem hall, tightenColons_of_not_mem hs,
        Text.trimNarrowRight_append_narrow hw]
  | step s rest hs ih =>
      rw [List.append_assoc, List.cons_append, tightenColons_append_cons hs,
        tightenColons_append_cons hs, Text.trimNarrowRight_append_cons isNarrowBlank_colon,
        Text.trimNarrowRight_append_cons isNarrowBlank_colon,
        ← Text.trimNarrowLeft_trimNarrowRight, ih, Text.trimNarrowLeft_trimNarrowRight]

theorem trimNarrowLeft_tightenColons_append (hw : IsNarrow w) (s : Text) :
    trimNarrowLeft (tightenColons (w ++ s)) = trimNarrowLeft (tightenColons s) := by
  have hnone := not_mem_colon_of_isWhite hw.isWhite
  induction s using Text.split_induction (byte ':') with
  | piece s hs =>
      have hall : byte ':' ∉ w ++ s := fun hmem => (List.mem_append.mp hmem).elim hnone hs
      rw [tightenColons_of_not_mem hall, tightenColons_of_not_mem hs,
        Text.trimNarrowLeft_narrow_append hw]
  | step s rest hs _ =>
      have hall : byte ':' ∉ w ++ s := fun hmem => (List.mem_append.mp hmem).elim hnone hs
      rw [← List.append_assoc, tightenColons_append_cons hall, tightenColons_append_cons hs,
        Text.trimNarrowLeft_append_cons isNarrowBlank_colon,
        Text.trimNarrowLeft_append_cons isNarrowBlank_colon, Text.trimNarrowLeft_trimNarrowRight,
        Text.trimNarrowLeft_narrow_append hw, Text.trimNarrowLeft_trimNarrowRight]

/-- Narrow blanks beside a colon do not show. -/
theorem tightenColons_around_colon {u v : Text} (hu : IsNarrow u) (hv : IsNarrow v) (s t : Text) :
    tightenColons (s ++ u ++ byte ':' :: (v ++ t)) = tightenColons (s ++ byte ':' :: t) := by
  rw [tightenColons_append_colon, tightenColons_append_colon,
    trimNarrowRight_tightenColons_append hu, trimNarrowLeft_tightenColons_append hv]

/-- White space at the end of a text does not show in its items. -/
theorem items_tightenColons_append_white (hw : IsWhite w) (s : Text) :
    items (tightenColons (s ++ w)) = items (tightenColons s) := by
  obtain ⟨cs, hcs, rfl⟩ := hw
  induction cs generalizing s with
  | nil => rw [List.flatMap_nil, List.append_nil]
  | cons c cs ih =>
      obtain ⟨hc, hcs⟩ := List.forall_mem_cons.mp hcs
      rw [List.flatMap_cons, ← List.append_assoc, ih _ hcs]
      by_cases hnarrow : IsNarrow (String.utf8EncodeChar c)
      · rw [← Text.items_trimNarrowRight, trimNarrowRight_tightenColons_append hnarrow,
          Text.items_trimNarrowRight]
      · have hsolid := tightenColons_append_solid (solid_wide hc hnarrow) s []
        rw [List.append_nil, tightenColons_of_not_mem List.not_mem_nil] at hsolid
        rw [hsolid, Text.items_append_blank hc]
        exact List.append_nil _

theorem items_tightenColons_white_append (hw : IsWhite w) (s : Text) :
    items (tightenColons (w ++ s)) = items (tightenColons s) := by
  obtain ⟨cs, hcs, rfl⟩ := hw
  induction cs with
  | nil => rfl
  | cons c cs ih =>
      obtain ⟨hc, hcs⟩ := List.forall_mem_cons.mp hcs
      rw [List.flatMap_cons, List.append_assoc, ← ih hcs]
      by_cases hnarrow : IsNarrow (String.utf8EncodeChar c)
      · rw [← Text.items_trimNarrowLeft, trimNarrowLeft_tightenColons_append hnarrow,
          Text.items_trimNarrowLeft]
      · have hsolid := tightenColons_append_solid (solid_wide hc hnarrow) []
          (cs.flatMap String.utf8EncodeChar ++ s)
        rw [List.nil_append, tightenColons_of_not_mem List.not_mem_nil] at hsolid
        rw [hsolid, Text.items_append_blank hc]
        rfl

/-- White space beside a comma does not show in the items. -/
theorem items_tightenColons_around_comma
    {u v : Text} (hu : IsWhite u) (hv : IsWhite v) (s t : Text) :
    items (tightenColons (s ++ u ++ byte ',' :: (v ++ t))) =
      items (tightenColons (s ++ byte ',' :: t)) := by
  have hcut : ∀ s t, items (tightenColons (s ++ byte ',' :: t)) =
      items (tightenColons s) ++ items (tightenColons t) := by
    intro s t
    have hsolid := tightenColons_append_solid solid_comma s t
    rw [List.singleton_append, List.singleton_append] at hsolid
    rw [hsolid, Text.items_append_comma]
  rw [hcut, hcut, items_tightenColons_append_white hu, items_tightenColons_white_append hv]

/-- A wide blank in front of a colon ends the item before it. -/
theorem items_tightenColons_wide_left {u : Text} (hu : IsWhite u) (hwide : ¬IsNarrow u)
    (s t : Text) :
    items (tightenColons (s ++ u ++ byte ':' :: t)) =
      items (tightenColons s) ++ items (byte ':' :: trimNarrowLeft (tightenColons t)) := by
  obtain ⟨before, c, after, rfl, hbefore, hc, hnarrow, hafter⟩ := hu.exists_last_wide hwide
  have hsolid := solid_wide hc hnarrow
  have hkeep :
      trimNarrowRight (tightenColons (s ++ (before ++ (String.utf8EncodeChar c ++ after)))) =
        tightenColons (s ++ before) ++ String.utf8EncodeChar c := by
    have h := tightenColons_append_solid hsolid (s ++ before) []
    rw [List.append_nil, tightenColons_of_not_mem List.not_mem_nil, List.append_nil] at h
    have htrim := hsolid.trimNarrowRight_append (tightenColons (s ++ before)) []
    rw [List.append_nil] at htrim
    rw [← List.append_assoc, ← List.append_assoc, trimNarrowRight_tightenColons_append hafter, h,
      htrim]
    exact congrArg _ (List.append_nil _)
  rw [tightenColons_append_colon, hkeep, List.append_assoc, Text.items_append_blank hc,
    items_tightenColons_append_white hbefore]

/-- Behind a wide blank a colon has nothing to be joined with. -/
theorem exists_tightenColons_wide_right {v : Text} (hv : IsWhite v) (hwide : ¬IsNarrow v)
    (s t : Text) :
    ∃ c rest, Text.isBlank c = true ∧
      tightenColons (s ++ byte ':' :: (v ++ t)) =
        trimNarrowRight (tightenColons s) ++ byte ':' :: (String.utf8EncodeChar c ++ rest) := by
  obtain ⟨before, c, after, rfl, hbefore, hc, hnarrow, hafter⟩ := hv.exists_first_wide hwide
  have hsolid := solid_wide hc hnarrow
  refine ⟨c, tightenColons (after ++ t), hc, ?_⟩
  have h := tightenColons_append_solid hsolid [] (after ++ t)
  rw [List.nil_append, tightenColons_of_not_mem List.not_mem_nil, List.nil_append] at h
  have htrim := hsolid.trimNarrowLeft_append [] (tightenColons (after ++ t))
  rw [tightenColons_append_colon, List.append_assoc before, List.append_assoc,
    trimNarrowLeft_tightenColons_append hbefore, h]
  exact congrArg (_ ++ byte ':' :: ·) htrim

end Colons

/-! ## Lines with more white space -/

/-- White space stands beside one delimiter: any beside a comma, and such that `p`
holds for beside a colon. -/
inductive Spaced (p : Text → Prop) : Text → Text → Prop
  | same (s : Text) : Spaced p s s
  | colon {u v : Text} (hu : p u) (hv : p v) (s t : Text) :
      Spaced p (s ++ byte ':' :: t) (s ++ u ++ byte ':' :: (v ++ t))
  | comma {u v : Text} (hu : IsWhite u) (hv : IsWhite v) (s t : Text) :
      Spaced p (s ++ byte ',' :: t) (s ++ u ++ byte ',' :: (v ++ t))

/-- The two lines have one number, and the second one has more white space. -/
structure Line.Spaced (p : Text → Prop) (l l' : Line) : Prop where
  number_eq : l'.number = l.number
  text : Description.Spaced p l.text l'.text

/-- White space neither brings in a delimiter nor takes one away. -/
theorem Spaced.contains_eq {s s' : Text} (h : Spaced IsWhite s s') {b : UInt8}
    (hb : b < 0x80 ∧ Text.isBlankByte b = false) : s'.contains b = s.contains b := by
  rw [Bool.eq_iff_iff, List.contains_iff_mem, List.contains_iff_mem]
  cases h with
  | same => exact Iff.rfl
  | colon hu hv s t => simp [hu.not_mem hb, hv.not_mem hb]
  | comma hu hv s t => simp [hu.not_mem hb, hv.not_mem hb]

/-- A line without a colon has white space beside commas only. -/
theorem Spaced.items_eq {s s' : Text} (h : Spaced IsWhite s s') (hcolon : byte ':' ∉ s) :
    items s' = items s := by
  cases h with
  | same => rfl
  | colon _ _ s t => exact absurd (List.mem_append_right s List.mem_cons_self) hcolon
  | comma hu hv s t =>
      rw [Text.items_append_comma, Text.items_append_comma, Text.items_append_white hu,
        Text.items_white_append hv]

theorem Spaced.map_trim_split_eq {s s' : Text} (h : Spaced IsWhite s s') (hcolon : byte ':' ∉ s) :
    (Text.split (byte ',') s').map Text.trim = (Text.split (byte ',') s).map Text.trim := by
  cases h with
  | same => rfl
  | colon _ _ s t => exact absurd (List.mem_append_right s List.mem_cons_self) hcolon
  | comma hu hv s t =>
      have hcomma : ∀ {w : Text}, IsWhite w → byte ',' ∉ w := fun hw => hw.not_mem (by decide)
      rw [Text.split_append_sep, Text.split_append_sep, List.map_append, List.map_append,
        Text.map_trim_split_append_white hu (hcomma hu),
        Text.map_trim_split_white_append hv (hcomma hv)]

/-! ## Sections with more white space -/

/-- The reader finds the same in lines with more white space, and leaves lines behind
that correspond to those it left behind before. -/
def Tolerant {α : Type} (r : SectionReader α) : Prop :=
  ∀ {lines lines' rest : List Line} {a : α},
    List.Forall₂ (Line.Spaced IsWhite) lines lines' → r lines = .ok (a, rest) →
      ∃ rest', r lines' = .ok (a, rest') ∧ List.Forall₂ (Line.Spaced IsWhite) rest rest'

section Sections

variable {part : Part} {l l' : Line}

theorem Line.checkNames_of_checkNames {names : List Text} {u : Unit}
    (h : l.checkNames part names = .ok u) : l'.checkNames part names = .ok () :=
  Line.checkNames_of_valid (Line.checkNames_eq_ok h)

theorem tolerant_readLine {α : Type} {f : Line → Except Malformed α}
    (hf : ∀ {l l' : Line} {a : α}, l.Spaced IsWhite l' → f l = .ok a → f l' = .ok a) :
    Tolerant (readLine part f) := by
  intro lines lines' rest a hlines h
  obtain ⟨l, rfl, hl⟩ := readLine_eq_ok h
  obtain ⟨l', rest', hspaced, hrest, rfl⟩ := List.forall₂_cons_left_iff.mp hlines
  exact ⟨rest', by rw [readLine, hf hspaced hl]; rfl, hrest⟩

theorem tolerant_readNameList : Tolerant (readNameList part) := by
  refine tolerant_readLine fun {l l' names} hspaced h => ?_
  simp only at h ⊢
  split at h
  · simp [Line.fail] at h
  next hcolon =>
    obtain ⟨u, hu, h⟩ := exists_of_bind_eq_ok h
    cases h
    rw [hspaced.text.contains_eq (by decide), if_neg hcolon,
      hspaced.text.items_eq (by simpa using hcolon), Line.checkNames_of_checkNames hu]
    rfl

theorem tolerant_readSingleName : Tolerant (readSingleName part) := by
  refine tolerant_readLine fun {l l' name} hspaced h => ?_
  split at h
  next hvalid =>
    cases h
    have hvisible : ∀ {b : UInt8}, Name.isPart b = false → b ∉ l.text :=
      fun hb => Marking.not_mem_of_isValid hvalid hb
    have hsame : l'.text = l.text := by
      have htext := hspaced.text
      generalize l.text = s at htext hvisible
      generalize l'.text = s' at htext
      cases htext with
      | same => rfl
      | colon _ _ s t =>
          exact absurd (List.mem_append_right s List.mem_cons_self) (hvisible (by decide))
      | comma _ _ s t =>
          exact absurd (List.mem_append_right s List.mem_cons_self) (hvisible (by decide))
    rw [hsame, if_pos hvalid]
  · simp [Line.fail] at h

/-- A protocol entry is cut at its only colon, or the white space stands behind that. -/
theorem readProtocolEntry_spaced
    {left right : Text} {e : ProtocolEntry} (hspaced : l.Spaced IsWhite l')
    (hcut : l.text.cut (byte ':') = some (left, right))
    (h : readProtocolEntry part l left right = .ok e) :
    ∃ left' right', l'.text.cut (byte ':') = some (left', right') ∧
      readProtocolEntry part l' left' right' = .ok e := by
  obtain ⟨hleft, htext⟩ := Text.cut_eq_some_iff.mp hcut
  unfold readProtocolEntry at h
  simp only at h
  split at h
  · simp [Line.fail] at h
  next hvalid =>
  split at h
  · simp [Line.fail] at h
  next hright =>
  obtain ⟨_, hnames, h⟩ := exists_of_bind_eq_ok h
  cases h
  have hright : byte ':' ∉ right := by simpa using hright
  have hdone : ∀ left' right', left'.trim = left.trim → byte ':' ∉ left' → byte ':' ∉ right' →
      items right' = items right → l'.text = left' ++ byte ':' :: right' →
      ∃ left' right', l'.text.cut (byte ':') = some (left', right') ∧
        readProtocolEntry part l' left' right' =
          .ok { state := left.trim, actions := right.items, line := l.number } := by
    intro left' right' htrim hleft' hright' hitems htext'
    refine ⟨left', right', Text.cut_eq_some_iff.mpr ⟨hleft', htext'⟩, ?_⟩
    have hnone : right'.contains (byte ':') = false := by simpa using hright'
    simp only [readProtocolEntry, htrim, hvalid, hnone, hitems, hspaced.number_eq,
      Line.checkNames_of_checkNames hnames]
    rfl
  have hspace := hspaced.text
  generalize l.text = s at hspace htext
  generalize hs' : l'.text = s' at hspace hdone
  cases hspace with
  | same => exact hdone left right rfl hleft hright rfl htext
  | @colon u v hu hv a b =>
      obtain ⟨rfl, -, rfl⟩ := (List.append_cons_inj_of_notMem hleft hright).mp htext.symm
      refine hdone (left ++ u) (v ++ right) (Text.trim_append_white hu left) ?_ ?_
        (Text.items_white_append hv right) rfl
      · simp [hleft, not_mem_colon_of_isWhite hu]
      · simp [hright, not_mem_colon_of_isWhite hv]
  | @comma u v hu hv a b =>
      have hcomma : byte ',' ∉ left := fun hmem =>
        Marking.not_mem_of_isValid (by simpa using hvalid) (by decide)
          (Text.mem_trim_of_mem (by decide) hmem)
      -- The state is a name, so the comma stands behind the colon.
      obtain ⟨k, rfl, hk⟩ | ⟨k, rfl, hk⟩ := List.append_eq_append_iff.mp htext
      · cases k with
        | nil => exact absurd (List.cons.inj hk).1 (by decide)
        | cons c k =>
            obtain ⟨rfl, -⟩ := List.cons.inj hk
            exact absurd (List.mem_append_right a List.mem_cons_self) hcomma
      · cases k with
        | nil => exact absurd (List.cons.inj hk).1 (by decide)
        | cons c k =>
            obtain ⟨rfl, rfl⟩ := List.cons.inj hk
            have hbehind : Spaced IsWhite (k ++ byte ',' :: b) (k ++ u ++ byte ',' :: (v ++ b)) :=
              .comma hu hv k b
            refine hdone left _ rfl hleft ?_ (hbehind.items_eq hright) (by simp)
            simpa [not_mem_colon_of_isWhite hu, not_mem_colon_of_isWhite hv] using hright

theorem tolerant_readProtocolMap : Tolerant (readProtocolMap part) := by
  intro lines lines' rest entries hlines h
  induction hlines generalizing entries with
  | nil => exact ⟨[], by cases h; rfl, by cases h; exact .nil⟩
  | @cons l l' lines lines' hl hlines ih =>
      rw [readProtocolMap] at h
      cases hcut : l.text.cut (byte ':') with
      | none =>
          rw [hcut] at h
          cases h
          have hnone : l'.text.cut (byte ':') = none := by
            apply Text.cut_of_not_mem
            intro hmem
            rw [← List.contains_iff_mem, hl.text.contains_eq (by decide),
              List.contains_iff_mem] at hmem
            obtain ⟨first, others, htext, hfirst⟩ := List.eq_append_cons_of_mem hmem
            rw [htext, Text.cut_append_cons hfirst] at hcut
            cases hcut
          exact ⟨l' :: lines', by rw [readProtocolMap, hnone], .cons hl hlines⟩
      | some sides =>
          obtain ⟨left, right⟩ := sides
          rw [hcut] at h
          obtain ⟨e, he, h⟩ := exists_of_bind_eq_ok h
          obtain ⟨⟨es, rest₁⟩, hes, h⟩ := exists_of_bind_eq_ok h
          cases h
          obtain ⟨left', right', hcut', he'⟩ := readProtocolEntry_spaced hl hcut he
          obtain ⟨rest', hes', hrest⟩ := ih hes
          refine ⟨rest', ?_, hrest⟩
          simp only [readProtocolMap, hcut', he', hes']
          rfl

theorem readFields_spaced
    {want : Nat} {fields : List Text} (hspaced : l.Spaced IsWhite l')
    (h : readFields part want l = .ok fields) : readFields part want l' = .ok fields := by
  unfold readFields at h ⊢
  split at h
  · simp [Line.fail] at h
  next hcolon =>
    rw [hspaced.text.contains_eq (by decide), if_neg hcolon,
      hspaced.text.map_trim_split_eq (by simpa using hcolon)]
    simp only at h ⊢
    split at h
    · simp [Line.fail] at h
    next hcount => rw [if_neg hcount, h]

theorem readLocalTransition_spaced
    {t : LocalTransition} (hspaced : l.Spaced IsWhite l') (h : readLocalTransition l = .ok t) :
    readLocalTransition l' = .ok t := by
  obtain ⟨fields, hfields, h⟩ := exists_of_bind_eq_ok h
  rw [readLocalTransition, readFields_spaced hspaced hfields]
  split at h
  next before sync groupText action after =>
    obtain ⟨_, hnames, h⟩ := exists_of_bind_eq_ok h
    split at h
    · simp [Line.fail] at h
    next hown =>
      cases h
      simp only [bind, Except.bind, Line.checkNames_of_checkNames hnames, if_neg hown,
        hspaced.number_eq]
      rfl
  next => simp [Line.fail] at h

theorem tolerant_readLocalTransitions : Tolerant readLocalTransitions := by
  intro lines lines' rest ts hlines h
  induction hlines generalizing ts with
  | nil => exact ⟨[], by cases h; rfl, by cases h; exact .nil⟩
  | @cons l l' lines lines' hl hlines ih =>
      have hcomma := hl.text.contains_eq (b := byte ',') (by decide)
      rw [readLocalTransitions] at h
      split at h
      next hmem =>
        obtain ⟨t, ht, h⟩ := exists_of_bind_eq_ok h
        obtain ⟨⟨ts', rest₁⟩, hts, h⟩ := exists_of_bind_eq_ok h
        cases h
        obtain ⟨rest', hts', hrest⟩ := ih hts
        refine ⟨rest', ?_, hrest⟩
        rw [readLocalTransitions, if_pos (hcomma.trans hmem), readLocalTransition_spaced hl ht,
          hts']
        rfl
      next hmem =>
        cases h
        refine ⟨l' :: lines', ?_, .cons hl hlines⟩
        rw [readLocalTransitions, if_neg (by rwa [hcomma])]

theorem readEnvironmentTransition_spaced
    {t : EnvironmentTransition} (hspaced : l.Spaced IsWhite l')
    (h : readEnvironmentTransition l = .ok t) : readEnvironmentTransition l' = .ok t := by
  unfold readEnvironmentTransition at h ⊢
  rw [hspaced.text.contains_eq (by decide)]
  split at h
  · simp [Line.fail] at h
  next hcomma =>
    obtain ⟨fields, hfields, h⟩ := exists_of_bind_eq_ok h
    rw [if_neg hcomma, readFields_spaced hspaced hfields]
    split at h
    next before sync agentText after =>
      obtain ⟨_, hnames, h⟩ := exists_of_bind_eq_ok h
      cases h
      simp only [bind, Except.bind, Line.checkNames_of_checkNames hnames, hspaced.number_eq]
      rfl
    next => simp [Line.fail] at h

theorem readEnvironmentTransitions_spaced
    {lines lines' : List Line} {ts : List EnvironmentTransition}
    (hlines : List.Forall₂ (Line.Spaced IsWhite) lines lines')
    (h : lines.mapM readEnvironmentTransition = .ok ts) :
    lines'.mapM readEnvironmentTransition = .ok ts := by
  rw [mapM_eq_ok_iff] at h ⊢
  induction hlines generalizing ts with
  | nil => exact h
  | cons hl hlines ih =>
      obtain ⟨t, ts, ht, hts, rfl⟩ := List.forall₂_cons_left_iff.mp h
      exact .cons (readEnvironmentTransition_spaced hl ht) (ih hts)

theorem nextNumber_spaced
    {p : Text → Prop} {lines lines' : List Line}
    (hlines : List.Forall₂ (Line.Spaced p) lines lines') :
    nextNumber lines' = nextNumber lines := by
  cases hlines with
  | nil => rfl
  | cons hl _ => exact hl.number_eq

/-! ## The agent states -/

/-- A walk that succeeds does so at each element and before it. -/
theorem exists_of_mapM_append_cons
    {ε α β : Type} {f : α → Except ε β} {before after : List α} {x : α} {ys : List β}
    (h : (before ++ x :: after).mapM f = .ok ys) :
    ∃ y ∈ ys, ∃ ys₀, f x = .ok y ∧ before.mapM f = .ok ys₀ := by
  rw [List.mapM_append] at h
  obtain ⟨ys₀, hbefore, h⟩ := exists_of_bind_eq_ok h
  rw [List.mapM_cons] at h
  obtain ⟨ys₁, hrest, h⟩ := exists_of_bind_eq_ok h
  obtain ⟨y, hy, hrest⟩ := exists_of_bind_eq_ok hrest
  obtain ⟨ys₂, -, hrest⟩ := exists_of_bind_eq_ok hrest
  cases hrest
  cases h
  exact ⟨y, by simp, ys₀, hy, hbefore⟩

/-- A walk ends at the first element at which it fails. -/
theorem mapM_append_cons_of_error
    {ε α β : Type} {f : α → Except ε β} {before : List α} {x : α} {ys₀ : List β} {e : ε}
    (hbefore : before.mapM f = .ok ys₀) (hx : f x = .error e) (after : List α) :
    (before ++ x :: after).mapM f = .error e := by
  rw [List.mapM_append, hbefore, List.mapM_cons, hx]
  rfl

theorem readAgentStates_eq_ok_iff
    {rest rest' : List Line} {states : List AgentState} :
    readAgentStates (l :: rest) = .ok (states, rest') ↔
      rest = rest' ∧ items (tightenColons l.text) ≠ [] ∧
        (items (tightenColons l.text)).mapM (readAgentState l) = .ok states := by
  simp only [readAgentStates, readLine]
  by_cases hne : items (tightenColons l.text) = []
  · simp [hne, Line.fail, Except.map]
  · have hentries : (items (tightenColons l.text)).isEmpty = false := by simpa using hne
    rw [hentries, if_neg Bool.false_ne_true]
    cases (items (tightenColons l.text)).mapM (readAgentState l) with
    | error e => simp [Except.map]
    | ok a => simp [Except.map, hne, and_comm]

/-- An entry is read without a look at the rest of the line. -/
theorem mapM_readAgentState_of_eq_ok {entries : List Text} {states : List AgentState}
    (h : entries.mapM (readAgentState l) = .ok states) :
    entries.mapM (readAgentState l') = .ok states := by
  rw [mapM_eq_ok_iff] at h ⊢
  exact h.imp fun _ _ hs => readAgentState_eq_ok_iff.mpr (readAgentState_eq_ok_iff.mp hs)

/-- White space beside commas and narrow blanks beside colons do not show. -/
theorem readAgentStates_spaced
    {rest rest₁ : List Line} {states : List AgentState} (hspaced : l.Spaced IsNarrow l')
    (h : readAgentStates (l :: rest) = .ok (states, rest₁)) (rest' : List Line) :
    readAgentStates (l' :: rest') = .ok (states, rest') := by
  have hitems : items (tightenColons l'.text) = items (tightenColons l.text) := by
    have htext := hspaced.text
    generalize l.text = s at htext
    generalize l'.text = s' at htext
    cases htext with
    | same => rfl
    | colon hu hv s t => rw [tightenColons_around_colon hu hv]
    | comma hu hv s t => exact items_tightenColons_around_comma hu hv s t
  obtain ⟨-, hne, hread⟩ := readAgentStates_eq_ok_iff.mp h
  rw [readAgentStates_eq_ok_iff, hitems]
  exact ⟨rfl, hne, mapM_readAgentState_of_eq_ok hread⟩

/-- At each colon of an accepted line a name ends and a weight begins. -/
theorem exists_entry_of_readAgentStates
    {s t : Text} (hl : l.text = s ++ byte ':' :: t) {rest rest₁ : List Line}
    {states : List AgentState} (h : readAgentStates (l :: rest) = .ok (states, rest₁)) :
    s ≠ [] ∧ t ≠ [] ∧ ∃ before states₀, before.mapM (readAgentState l) = .ok states₀ ∧
      ∃ a ∈ states, Name.isValid a.name = true ∧
        items (tightenColons s) = before ++ [a.name] ∧
        ∀ c t', Text.isBlank c = true →
          items (trimNarrowRight (tightenColons s) ++ byte ':' :: (String.utf8EncodeChar c ++ t')) =
            before ++ (a.name ++ [byte ':']) :: items t' := by
  obtain ⟨-, -, hread⟩ := readAgentStates_eq_ok_iff.mp h
  obtain ⟨before, left, hleft, hjoined, hapart⟩ :=
    Text.exists_items_append_token (b := byte ':') (by decide) (trimNarrowRight (tightenColons s))
  rw [Text.items_trimNarrowRight] at hleft
  rw [hl, tightenColons_append_colon, hjoined] at hread
  obtain ⟨a, hmem, states₀, ha, hbefore⟩ := exists_of_mapM_append_cons hread
  obtain ⟨weight, hentry, hvalid, hweight, -⟩ := readAgentState_eq_ok_iff.mp ha
  have hliteral := Text.toInt64?_eq_some_iff.mp hweight
  have hcolon : byte ':' ∉ weight := by
    intro hmem
    have hdigit := hliteral.mem hmem
    revert hdigit
    decide
  obtain ⟨rfl, -, rfl⟩ := (List.append_cons_inj_of_notMem
    (Marking.not_mem_of_isValid hvalid (by decide)) hcolon).mp hentry.symm
  have hclose : Text.closeRun (a.name, []) = [a.name] :=
    if_neg (by simpa using Name.ne_nil_of_isValid hvalid)
  rw [hclose] at hleft
  refine ⟨?_, ?_, before, states₀, hbefore, a, hmem, hvalid, hleft, hapart⟩
  · rintro rfl
    rw [tightenColons_of_not_mem List.not_mem_nil] at hleft
    exact List.append_ne_nil_of_right_ne_nil before (List.cons_ne_nil _ _) hleft.symm
  · rintro rfl
    exact hliteral.ne_nil (by rw [tightenColons_of_not_mem List.not_mem_nil]; rfl)

/-- Other white space beside a colon leaves a state without its weight: in front of the
colon it ends the entry at the name, behind the colon it ends it there. -/
theorem readAgentStates_torn
    {s t u v : Text} (hl : l.text = s ++ byte ':' :: t)
    (hl' : l'.text = s ++ u ++ byte ':' :: (v ++ t)) (hu : IsWhite u) (hv : IsWhite v)
    (hwide : ¬(IsNarrow u ∧ IsNarrow v)) {rest rest₁ : List Line} {states : List AgentState}
    (h : readAgentStates (l :: rest) = .ok (states, rest₁)) (rest' : List Line) :
    ∃ a ∈ states, readAgentStates (l' :: rest') =
      l'.fail .agentStates (if IsNarrow u then .badWeight a.name else .noWeight a.name) := by
  obtain ⟨-, -, before, states₀, hbefore, a, hmem, hvalid, hleft, hapart⟩ :=
    exists_entry_of_readAgentStates hl h
  have hname : byte ':' ∉ a.name := Marking.not_mem_of_isValid hvalid (by decide)
  -- The entries before are read as they were, and the first one that is torn is refused.
  have hfirst : ∀ {entry : Text} {others : List Text} {fault : ReadFault},
      items (tightenColons l'.text) = before ++ entry :: others →
      readAgentState l' entry = l'.fail .agentStates fault →
        readAgentStates (l' :: rest') = l'.fail .agentStates fault := by
    intro entry others fault hitems hrefused
    have hentries : (before ++ entry :: others).isEmpty = false := by simp
    simp only [readAgentStates, readLine, hitems, hentries, Bool.false_eq_true, if_false,
      mapM_append_cons_of_error (mapM_readAgentState_of_eq_ok hbefore) hrefused]
    rfl
  refine ⟨a, hmem, ?_⟩
  by_cases hnarrow : IsNarrow u
  · have hwide' : ¬IsNarrow v := fun hv' => hwide ⟨hnarrow, hv'⟩
    obtain ⟨c, others, hc, htight⟩ := exists_tightenColons_wide_right hv hwide' (s ++ u) t
    have hitems : items (tightenColons l'.text) =
        before ++ (a.name ++ [byte ':']) :: items others := by
      rw [hl', htight, trimNarrowRight_tightenColons_append hnarrow, hapart c others hc]
    have hnone : Text.toInt64? [] = none := by decide
    rw [if_pos hnarrow]
    apply hfirst hitems
    simp [readAgentState, Text.cut_append_cons hname, hvalid, hnone]
  · have hitems : items (tightenColons l'.text) =
        before ++ a.name :: items (byte ':' :: trimNarrowLeft (tightenColons (v ++ t))) := by
      rw [hl', items_tightenColons_wide_left hu hnarrow, hleft, List.append_assoc]
      rfl
    rw [if_neg hnarrow]
    apply hfirst hitems
    rw [readAgentState, Text.cut_of_not_mem hname]

/-- Only the first line is sensitive to what stands beside its colons. -/
theorem readSections_spaced
    {rest rest' : List Line} {r : Description × Layout} (hl : l.Spaced IsNarrow l')
    (hrest : List.Forall₂ (Line.Spaced IsWhite) rest rest')
    (h : readSections (l :: rest) = .ok r) : readSections (l' :: rest') = .ok r := by
  obtain ⟨⟨states, lines₁⟩, hstates, h⟩ := exists_of_bind_eq_ok h
  obtain ⟨⟨actions, lines₂⟩, hactions, h⟩ := exists_of_bind_eq_ok h
  obtain ⟨⟨protocol, lines₃⟩, hprotocol, h⟩ := exists_of_bind_eq_ok h
  obtain ⟨⟨transitions, lines₄⟩, htransitions, h⟩ := exists_of_bind_eq_ok h
  obtain ⟨⟨initial, lines₅⟩, hinitial, h⟩ := exists_of_bind_eq_ok h
  obtain ⟨⟨leave, lines₆⟩, hleave, h⟩ := exists_of_bind_eq_ok h
  obtain ⟨⟨envStates, lines₇⟩, henvStates, h⟩ := exists_of_bind_eq_ok h
  obtain ⟨⟨envActions, lines₈⟩, henvActions, h⟩ := exists_of_bind_eq_ok h
  obtain ⟨⟨envProtocol, lines₉⟩, henvProtocol, h⟩ := exists_of_bind_eq_ok h
  obtain ⟨⟨envInitial, lines₁₀⟩, henvInitial, h⟩ := exists_of_bind_eq_ok h
  obtain ⟨envTransitions, henvTransitions, h⟩ := exists_of_bind_eq_ok h
  cases h
  obtain ⟨rfl, -⟩ := readAgentStates_eq_ok_iff.mp hstates
  obtain ⟨lines₂', hactions', hlines₂⟩ := tolerant_readNameList hrest hactions
  obtain ⟨lines₃', hprotocol', hlines₃⟩ := tolerant_readProtocolMap hlines₂ hprotocol
  obtain ⟨lines₄', htransitions', hlines₄⟩ := tolerant_readLocalTransitions hlines₃ htransitions
  obtain ⟨lines₅', hinitial', hlines₅⟩ := tolerant_readSingleName hlines₄ hinitial
  obtain ⟨lines₆', hleave', hlines₆⟩ := tolerant_readSingleName hlines₅ hleave
  obtain ⟨lines₇', henvStates', hlines₇⟩ := tolerant_readNameList hlines₆ henvStates
  obtain ⟨lines₈', henvActions', hlines₈⟩ := tolerant_readNameList hlines₇ henvActions
  obtain ⟨lines₉', henvProtocol', hlines₉⟩ := tolerant_readProtocolMap hlines₈ henvProtocol
  obtain ⟨lines₁₀', henvInitial', hlines₁₀⟩ := tolerant_readSingleName hlines₉ henvInitial
  have hfirst : nextNumber (l' :: rest') = nextNumber (l :: rest) := hl.number_eq
  simp only [readSections, bind, Except.bind, readAgentStates_spaced hl hstates rest', hactions',
    hprotocol', htransitions', hinitial', hleave', henvStates', henvActions', henvProtocol',
    henvInitial', readEnvironmentTransitions_spaced hlines₁₀ henvTransitions, hfirst,
    nextNumber_spaced hlines₄, nextNumber_spaced hlines₅, nextNumber_spaced hlines₆,
    nextNumber_spaced hlines₉]
  rfl

theorem readLines_spaced
    {rest rest' : List Line} {d : Description} (hl : l.Spaced IsNarrow l')
    (hrest : List.Forall₂ (Line.Spaced IsWhite) rest rest')
    (h : readLines (l :: rest) = .ok d) : readLines (l' :: rest') = .ok d := by
  obtain ⟨⟨d, layout⟩, hsections, h⟩ := exists_of_bind_eq_ok h
  rw [readLines, readSections_spaced hl hrest hsections]
  exact h

theorem readLines_torn
    {s t u v : Text} (hl : l.text = (s ++ byte ':' :: t).trim)
    (hl' : l'.text = (s ++ u ++ byte ':' :: (v ++ t)).trim) (hu : IsWhite u) (hv : IsWhite v)
    (hwide : ¬(IsNarrow u ∧ IsNarrow v)) {rest : List Line} {d : Description}
    (h : readLines (l :: rest) = .ok d) (rest' : List Line) :
    ∃ a ∈ d.agent.states, readLines (l' :: rest') =
      l'.fail .agentStates (if IsNarrow u then .badWeight a.name else .noWeight a.name) := by
  obtain ⟨⟨d, layout⟩, hsections, h⟩ := exists_of_bind_eq_ok h
  obtain ⟨_, -, h⟩ := exists_of_bind_eq_ok h
  cases h
  obtain ⟨⟨states, rest₁⟩, hstates, hsections⟩ := exists_of_bind_eq_ok hsections
  obtain ⟨s', hs⟩ := Text.exists_trim_append_cons (b := byte ':') (by decide) (by decide) s
  obtain ⟨t', hbefore, hbehind⟩ := hs t
  rw [hbefore] at hl
  obtain ⟨hleft, hright, -⟩ := exists_entry_of_readAgentStates hl hstates
  rw [hbehind u v hu hv, if_neg hleft, if_neg hright] at hl'
  obtain ⟨a, ha, htorn⟩ := readAgentStates_torn hl hl' hu hv hwide hstates rest'
  have hstatesOf : d.agent.states = states := by
    iterate 10 obtain ⟨_, -, hsections⟩ := exists_of_bind_eq_ok hsections
    cases hsections
    rfl
  refine ⟨a, hstatesOf ▸ ha, ?_⟩
  simp only [readLines, readSections, htorn]
  rfl

end Sections

/-! ## Whole texts -/

/-- The lines of a text that a line feed ends. -/
def closedLines (p : Text) : List Text :=
  (Text.split (byte '\n') p).dropLast

/-- What stands behind the last line feed of a text. -/
def openLine (p : Text) : Text :=
  (Text.split (byte '\n') p).getLastD []

/-- Behind the lines `front` and the text `left` stands a colon of the agent states, which
are in the first line that counts, and other than narrow white space is put beside it. -/
structure TearsState (front : List Text) (left : Text) (x : UInt8) (u v : Text) : Prop where
  colon : x = byte ':'
  first : ∀ l ∈ front, IsIdle l
  counts : ¬IsIdle (left ++ [x])
  wide : ¬(IsNarrow u ∧ IsNarrow v)

section Around

variable {x : UInt8} {u v : Text}

/-- The line as far as a delimiter tells whether it is a comment. -/
theorem isIdle_around (hx : x < 0x80 ∧ Text.isBlankByte x = false) (hu : IsWhite u)
    (hv : IsWhite v) (a b : Text) : IsIdle (a ++ u ++ x :: (v ++ b)) ↔ IsIdle (a ++ [x]) := by
  obtain ⟨a', ha⟩ := Text.exists_trim_append_cons hx.1 hx.2 a
  obtain ⟨b', -, hwhole⟩ := ha b
  obtain ⟨c', hstart, -⟩ := ha []
  rw [IsIdle, IsIdle, hwhole u v hu hv, hstart]
  cases a' <;> simp

/-- A line that counts still counts, and its text has more white space. -/
theorem spaced_around
    {p : Text → Prop} (hnil : p []) (hx : x = byte ':' ∧ p u ∧ p v ∨ x = byte ',')
    (hu : IsWhite u) (hv : IsWhite v) (a b : Text) :
    Spaced p (a ++ x :: b).trim (a ++ u ++ x :: (v ++ b)).trim := by
  have hvisible : x < 0x80 ∧ Text.isBlankByte x = false := by
    rcases hx with ⟨rfl, -⟩ | rfl <;> decide
  obtain ⟨a', ha⟩ := Text.exists_trim_append_cons hvisible.1 hvisible.2 a
  obtain ⟨b', hbefore, hbehind⟩ := ha b
  have hpick : ∀ {q : Text → Prop} (c : Prop) [Decidable c] {w : Text}, q [] → q w →
      q (if c then [] else w) := by
    intro q c _ w hempty hw
    split_ifs
    · exact hempty
    · exact hw
  rw [hbefore, hbehind u v hu hv]
  rcases hx with ⟨rfl, hpu, hpv⟩ | rfl
  · exact .colon (hpick _ hnil hpu) (hpick _ hnil hpv) a' b'
  · exact .comma (hpick _ Text.isWhite_nil hu) (hpick _ Text.isWhite_nil hv) a' b'

theorem Line.forall₂_spaced_refl (lines : List Line) :
    List.Forall₂ (Line.Spaced IsWhite) lines lines :=
  List.forall₂_same.mpr fun l _ => ⟨rfl, .same l.text⟩

/-- Among the lines of a text, one with more white space beside a delimiter. -/
theorem readLines_around
    (hx : x = byte ':' ∨ x = byte ',') (hu : IsWhite u) (hv : IsWhite v) {front back : List Text}
    {a b : Text} {d : Description}
    (h : readLines (countedLines 1 (front ++ (a ++ x :: b) :: back)) = .ok d) :
    (¬TearsState front a x u v →
      readLines (countedLines 1 (front ++ (a ++ u ++ x :: (v ++ b)) :: back)) = .ok d) ∧
      (TearsState front a x u v → ∃ s ∈ d.agent.states, ∃ text,
        readLines (countedLines 1 (front ++ (a ++ u ++ x :: (v ++ b)) :: back)) =
          .error ⟨front.length + 1, .agentStates, text,
            if IsNarrow u then .badWeight s.name else .noWeight s.name⟩) := by
  have hvisible : x < 0x80 ∧ Text.isBlankByte x = false := by
    rcases hx with rfl | rfl <;> decide
  have hbare := isIdle_around hvisible Text.isWhite_nil Text.isWhite_nil a b
  rw [List.append_nil, List.nil_append] at hbare
  have hidle := isIdle_around hvisible hu hv a b
  rw [countedLines_append, countedLines_cons] at h ⊢
  by_cases hcomment : IsIdle (a ++ [x])
  · rw [isSignificant_eq_false_iff.mpr (hidle.mpr hcomment)]
    rw [isSignificant_eq_false_iff.mpr (hbare.mpr hcomment)] at h
    exact ⟨fun _ => h, fun htorn => absurd hcomment htorn.counts⟩
  have hcounts : isSignificant (a ++ x :: b).trim = true := by
    rwa [← Bool.not_eq_false, isSignificant_eq_false_iff, hbare]
  have hcounts' : isSignificant (a ++ u ++ x :: (v ++ b)).trim = true := by
    rwa [← Bool.not_eq_false, isSignificant_eq_false_iff, hidle]
  rw [if_pos hcounts', List.singleton_append]
  rw [if_pos hcounts, List.singleton_append] at h
  have hline : ∀ {p : Text → Prop}, p [] → x = byte ':' ∧ p u ∧ p v ∨ x = byte ',' →
      Line.Spaced p ⟨1 + front.length, (a ++ x :: b).trim⟩
        ⟨1 + front.length, (a ++ u ++ x :: (v ++ b)).trim⟩ :=
    fun hnil hspace => ⟨rfl, spaced_around hnil hspace hu hv a b⟩
  have hback := Line.forall₂_spaced_refl (countedLines (1 + front.length + 1) back)
  cases hfront : countedLines 1 front with
  | nil =>
      rw [hfront, List.nil_append] at h
      rw [List.nil_append]
      have hfirst := countedLines_eq_nil_iff.mp hfront
      constructor
      · intro hwhole
        have hnarrow : x = byte ':' ∧ IsNarrow u ∧ IsNarrow v ∨ x = byte ',' :=
          hx.imp_left fun hcolon => ⟨hcolon, Decidable.byContradiction fun hwide =>
            hwhole ⟨hcolon, hfirst, hcomment, hwide⟩⟩
        exact readLines_spaced (hline Text.isNarrow_nil hnarrow) hback h
      · rintro ⟨rfl, -, -, hwide⟩
        have htext : Line.text ⟨1 + front.length, (a ++ u ++ byte ':' :: (v ++ b)).trim⟩ =
            (a ++ u ++ byte ':' :: (v ++ b)).trim := rfl
        obtain ⟨s, hs, herror⟩ := readLines_torn rfl htext hu hv hwide h
          (countedLines (1 + front.length + 1) back)
        refine ⟨s, hs, (a ++ u ++ byte ':' :: (v ++ b)).trim, ?_⟩
        rw [Nat.add_comm front.length 1]
        exact herror
  | cons l lines =>
      rw [hfront, List.cons_append] at h
      rw [List.cons_append]
      constructor
      · intro _
        have hwhite : x = byte ':' ∧ IsWhite u ∧ IsWhite v ∨ x = byte ',' :=
          hx.imp_left fun hcolon => ⟨hcolon, hu, hv⟩
        have hrest := List.rel_append (Line.forall₂_spaced_refl lines)
          (.cons (hline Text.isWhite_nil hwhite) hback)
        exact readLines_spaced ⟨rfl, .same l.text⟩ hrest h
      · intro htorn
        rw [countedLines_eq_nil_iff.mpr htorn.first] at hfront
        cases hfront

/-- White space beside a delimiter is lost, unless it is other than narrow and stands
beside a colon of the agent states.  There the description is refused, for a state that
it declares. -/
theorem spacing_insignificant_unless_torn
    {p q : Text} (hx : x = byte ':' ∨ x = byte ',') (hu : IsWhite u) (hv : IsWhite v)
    (hline : byte '\n' ∉ u ++ v)
    (hshort : ∀ l ∈ rawLines (p ++ u ++ x :: (v ++ q)), l.length < lineLimit)
    {d : Description} (hread : read (p ++ x :: q) = .ok d) :
    (¬TearsState (closedLines p) (openLine p) x u v →
      read (p ++ u ++ x :: (v ++ q)) = .ok d) ∧
      (TearsState (closedLines p) (openLine p) x u v → ∃ s ∈ d.agent.states, ∃ text,
        read (p ++ u ++ x :: (v ++ q)) =
          .error (.malformed ⟨(closedLines p).length + 1, .agentStates, text,
            if IsNarrow u then .badWeight s.name else .noWeight s.name⟩)) := by
  have hbreak : byte '\n' ≠ x := by
    rcases hx with rfl | rfl <;> decide
  obtain ⟨b, back, hsplit⟩ := Text.exists_split_append (byte '\n') p q
  have hold : significantLines (p ++ x :: q) =
      countedLines 1 (closedLines p ++ (openLine p ++ x :: b) :: back) := by
    rw [(madeOf_split _).significantLines_eq]
    exact congrArg _ (hsplit [x] (by simpa using hbreak))
  have hnew : significantLines (p ++ u ++ x :: (v ++ q)) =
      countedLines 1 (closedLines p ++ (openLine p ++ u ++ x :: (v ++ b)) :: back) := by
    rw [(madeOf_split _).significantLines_eq]
    have h := hsplit (u ++ x :: v) (by simpa [hbreak] using hline)
    simpa [closedLines, openLine] using congrArg (countedLines 1) h
  have hlines : readLines (significantLines (p ++ x :: q)) = .ok d := by
    unfold read at hread
    split at hread
    · cases hread
    · split at hread
      next hlines =>
        cases hread
        exact hlines
      next => cases hread
  have hfits : (rawLines (p ++ u ++ x :: (v ++ q))).any (fun l => lineLimit ≤ l.length) =
      false := by
    simpa using hshort
  rw [hold] at hlines
  obtain ⟨hkept, htorn⟩ := readLines_around hx hu hv hlines
  rw [read, hfits, if_neg Bool.false_ne_true, hnew]
  refine ⟨fun h => by rw [hkept h], fun h => ?_⟩
  obtain ⟨s, hs, text, herror⟩ := htorn h
  exact ⟨s, hs, text, by rw [herror]⟩

end Around

/-- A description up to its first colon. -/
def stateName : Text :=
  "idle"

/-- The description behind that colon. -/
def stateWeight : Text :=
  " 1\ngo\nidle\nidle\ns0\nsync\ns0\n"

/-- A tabulator in front of the colon is lost, a no-break space behind it is not. -/
theorem spacing_insignificant_unless_torn_idle :
    ∃ d, read (stateName ++ byte ':' :: stateWeight) = .ok d ∧
      read (stateName ++ Text.ofString "\t" ++ byte ':' :: ([] ++ stateWeight)) = .ok d ∧
      ∃ s ∈ d.agent.states, ∃ text,
        read (stateName ++ [] ++ byte ':' :: (Text.ofString "\u00a0" ++ stateWeight)) =
          .error (.malformed ⟨1, .agentStates, text, .badWeight s.name⟩) := by
  obtain ⟨d, hread, -⟩ := exists_eq_ok_of_any
    (x := read (stateName ++ byte ':' :: stateWeight)) (p := fun _ => true) (by decide +kernel)
  have htab : IsWhite (Text.ofString "\t") :=
    ⟨['\t'], List.forall_mem_singleton.mpr (by decide), by decide +kernel⟩
  have hnobreak : IsWhite (Text.ofString "\u00a0") :=
    ⟨['\u00a0'], List.forall_mem_singleton.mpr (by decide), by decide +kernel⟩
  obtain ⟨hkept, -⟩ := spacing_insignificant_unless_torn (.inl rfl) htab Text.isWhite_nil
    (by decide) (by decide +kernel) hread
  obtain ⟨-, htorn⟩ := spacing_insignificant_unless_torn (.inl rfl) Text.isWhite_nil hnobreak
    (by decide) (by decide +kernel) hread
  exact ⟨d, hread, hkept fun h => h.wide (by decide),
    htorn ⟨rfl, by decide +kernel, by decide +kernel, by decide⟩⟩

/-- A no-break space in front of the colon makes the reader refuse a description that it
accepts without it. -/
theorem wide_blank_before_colon_refused :
    (∃ d, read (stateName ++ byte ':' :: stateWeight) = .ok d) ∧
      IsWhite (Text.ofString "\u00a0") ∧
      ∃ text, read (stateName ++ Text.ofString "\u00a0" ++ byte ':' :: stateWeight) =
        .error (.malformed ⟨1, .agentStates, text, .noWeight stateName⟩) := by
  obtain ⟨d, hread, -⟩ := exists_eq_ok_of_any
    (x := read (stateName ++ byte ':' :: stateWeight)) (p := fun _ => true) (by decide +kernel)
  exact ⟨⟨d, hread⟩,
    ⟨['\u00a0'], List.forall_mem_singleton.mpr (by decide), by decide +kernel⟩,
    stateName ++ Text.ofString "\u00a0" ++ byte ':' :: Text.ofString " 1", by decide +kernel⟩

end Description

end Population
