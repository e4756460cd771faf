import Population.Proofs.Text.Words

/-!
# White space beside pieces

What a reader finds in a text does not depend on how much white space stands beside
its pieces.  Runs are found from the back: behind a text that is read already, the
runs that it has finished stay as they are, and the run that it has left open goes on
with whatever comes next.  A separator closes that run, so the runs of two texts with
a separator between them are the runs of both.
-/

namespace Population.Text

/-! ## Runs of texts put together -/

section Runs

variable {isSep : Glyph → Bool} {s t : Text}

/-- A byte of its own stands apart from what comes before and after it. -/
theorem glyphs_append_cons {b : UInt8} (hb : b < 0x80) (s t : Text) :
    glyphs (s ++ b :: t) = glyphs s ++ .scalar (Char.ofNat b.toNat) :: glyphs t := by
  have htail : Glyph.isTail b = false := by
    rw [Bool.eq_false_iff, ne_eq, Glyph.isTail_iff]
    exact fun h => absurd (UInt8.lt_iff_toNat_lt.mp hb) (Nat.not_lt.mpr h.1)
  rw [glyphs_append (by simpa using htail), glyphs_eq_cons fun done => glyphsFrom_one done t hb]

/-- The text has the runs `done` and leaves the run `last` open, which may be empty. -/
structure Leaves (isSep : Glyph → Bool) (s : Text) (done : List Text) (last : Text) : Prop where
  closeRun_foldr : ∀ run later,
    closeRun ((glyphs s).foldr (runStep isSep) (run, later)) =
      done ++ closeRun (last ++ run, later)

/-- Glyphs without a separator open a run; with one, they finish a run, which nothing
that follows can change. -/
theorem foldr_runStep_cases (isSep : Glyph → Bool) (gs : List Glyph) :
    (∃ last, ∀ run later, gs.foldr (runStep isSep) (run, later) = (last ++ run, later)) ∨
      ∃ first done last, ∀ run later,
        gs.foldr (runStep isSep) (run, later) = (first, done ++ closeRun (last ++ run, later)) := by
  induction gs with
  | nil => exact .inl ⟨[], fun _ _ => rfl⟩
  | cons g gs ih =>
      simp only [List.foldr_cons]
      by_cases hg : isSep g = true
      · obtain ⟨last, h⟩ | ⟨first, done, last, h⟩ := ih
        · exact .inr ⟨[], [], last, fun run later => by simp [h, runStep, hg]⟩
        · refine .inr ⟨[], closeRun (first, done), last, fun run later => ?_⟩
          simp only [h, runStep, hg, if_true, closeRun, Prod.mk.injEq, true_and]
          split_ifs <;> simp
      · obtain ⟨last, h⟩ | ⟨first, done, last, h⟩ := ih
        · exact .inl ⟨g.bytes ++ last, fun run later => by simp [h, runStep, hg]⟩
        · exact .inr ⟨g.bytes ++ first, done, last, fun run later => by simp [h, runStep, hg]⟩

theorem exists_leaves (isSep : Glyph → Bool) (s : Text) :
    ∃ done last, Leaves isSep s done last := by
  obtain ⟨last, h⟩ | ⟨first, done, last, h⟩ := foldr_runStep_cases isSep (glyphs s)
  · exact ⟨[], last, ⟨fun run later => by rw [h, List.nil_append]⟩⟩
  · refine ⟨closeRun (first, done), last, ⟨fun run later => ?_⟩⟩
    rw [h]
    unfold closeRun
    split_ifs <;> simp

theorem closeRun_append (run : Text) (done later : List Text) :
    closeRun (run, done ++ later) = closeRun (run, done) ++ later := by
  unfold closeRun
  split_ifs <;> simp

section Left

variable {done : List Text} {last : Text} (h : Leaves isSep s done last)
include h

theorem Leaves.runs_eq : runs isSep s = done ++ closeRun (last, []) := by
  rw [runs_eq_closeRun_foldr, h.closeRun_foldr, List.append_nil]

/-- A byte that is no separator goes on with the open run. -/
theorem Leaves.runs_append_cons
    {b : UInt8} (hb : b < 0x80) (hsep : separates isSep b = false) (t : Text) :
    runs isSep (s ++ b :: t) =
      done ++ (last ++ b :: (runState isSep t).1) :: (runState isSep t).2 := by
  rw [runs_eq_closeRun_foldr, glyphs_append_cons hb, List.foldr_append, List.foldr_cons]
  have hopen : runStep isSep (.scalar (Char.ofNat b.toNat)) (runState isSep t) =
      (b :: (runState isSep t).1, (runState isSep t).2) := by
    rw [runStep, bytes_scalar_ascii hb]
    exact if_neg (by simpa [separates] using hsep)
  rw [runState] at hopen
  rw [hopen, h.closeRun_foldr]
  simp [closeRun, runState]

end Left

/-- A separator keeps the runs before it apart from those behind it. -/
theorem runs_append_sep {c : Char} (hc : isSep (.scalar c) = true) (s t : Text) :
    runs isSep (s ++ (String.utf8EncodeChar c ++ t)) = runs isSep s ++ runs isSep t := by
  have hglyphs : glyphs (s ++ (String.utf8EncodeChar c ++ t)) =
      glyphs s ++ .scalar c :: glyphs t := by
    rw [glyphs_append, glyphs_utf8EncodeChar_append]
    obtain ⟨first, tail, hencode, hfirst, -⟩ := exists_utf8EncodeChar_eq c
    rw [hencode]
    simpa using hfirst
  obtain ⟨done, last, h⟩ := exists_leaves isSep s
  rw [h.runs_eq, runs_eq_closeRun_foldr, hglyphs, List.foldr_append, List.foldr_cons, runStep,
    if_pos hc, h.closeRun_foldr, List.append_nil, ← runs_eq_closeRun_foldr, List.append_assoc,
    ← closeRun_append, List.nil_append]

end Runs

/-! ## Items -/

section Items

variable {w : Text}

theorem items_append_blank {c : Char} (hc : isBlank c = true) (s t : Text) :
    items (s ++ (String.utf8EncodeChar c ++ t)) = items s ++ items t :=
  runs_append_sep (by simp [isBlankGlyph, hc]) s t

theorem items_append_comma (s t : Text) : items (s ++ byte ',' :: t) = items s ++ items t := by
  have hcomma : String.utf8EncodeChar ',' = [byte ','] := by decide
  have hsep : isItemSep (.scalar ',') = true := by decide
  have h := runs_append_sep hsep s t
  rwa [hcomma] at h

theorem items_white_append (hw : IsWhite w) (s : Text) : items (w ++ s) = items s := by
  obtain ⟨cs, hcs, rfl⟩ := hw
  induction cs with
  | nil => rfl
  | cons c cs ih =>
      obtain ⟨hc, hcs⟩ := List.forall_mem_cons.mp hcs
      have h := items_append_blank hc [] (cs.flatMap String.utf8EncodeChar ++ s)
      rw [List.flatMap_cons, List.append_assoc]
      exact h.trans (ih hcs)

theorem items_append_white (hw : IsWhite w) (s : Text) : items (s ++ w) = items s := by
  obtain ⟨cs, hcs, rfl⟩ := hw
  induction cs generalizing s with
  | nil => rw [List.flatMap_nil, List.append_nil]
  | cons c cs ih =>
      obtain ⟨hc, hcs⟩ := List.forall_mem_cons.mp hcs
      have h := items_append_blank hc s []
      rw [List.append_nil] at h
      rw [List.flatMap_cons, ← List.append_assoc, ih _ hcs, h]
      exact List.append_nil _

/-- A byte of a token goes on with the last item of the text before it, unless there is
white space in between, and the item ends where white space follows. -/
theorem exists_items_append_token {b : UInt8} (hb : isTokenByte b = true) (s : Text) :
    ∃ before left, items s = before ++ closeRun (left, []) ∧
      (∀ t, items (s ++ b :: t) =
        before ++ (left ++ b :: (runState isItemSep t).1) :: (runState isItemSep t).2) ∧
      ∀ c t, isBlank c = true →
        items (s ++ b :: (String.utf8EncodeChar c ++ t)) =
          before ++ (left ++ [b]) :: items t := by
  obtain ⟨hascii, -, hsep⟩ := token_byte hb
  obtain ⟨before, left, h⟩ := exists_leaves isItemSep s
  refine ⟨before, left, h.runs_eq, h.runs_append_cons hascii hsep, fun c t hc => ?_⟩
  have happend := items_append_blank hc (s ++ [b]) t
  have halone : items (s ++ [b]) = before ++ [left ++ [b]] :=
    h.runs_append_cons hascii hsep []
  rw [halone] at happend
  simpa using happend

end Items

/-! ## Trimmed texts -/

section Trimmed

variable {w : Text}

theorem IsWhite.append {v : Text} (hv : IsWhite v) (hw : IsWhite w) : IsWhite (v ++ w) := by
  obtain ⟨cs, hcs, rfl⟩ := hv
  obtain ⟨ds, hds, rfl⟩ := hw
  exact ⟨cs ++ ds, List.forall_mem_append.mpr ⟨hcs, hds⟩, List.flatMap_append.symm⟩

theorem trim_append_white (hw : IsWhite w) (s : Text) : trim (s ++ w) = trim s := by
  obtain ⟨left, right, hleft, hright, hs, hcore⟩ := exists_trim s
  refine trim_eq_iff.mpr ⟨left, right ++ w, hleft, hright.append hw, ?_, hcore⟩
  rw [← List.append_assoc, ← hs]

theorem trim_white_append (hw : IsWhite w) (s : Text) : trim (w ++ s) = trim s := by
  obtain ⟨left, right, hleft, hright, hs, hcore⟩ := exists_trim s
  refine trim_eq_iff.mpr ⟨w ++ left, right, hw.append hleft, hright, ?_, hcore⟩
  rw [List.append_assoc w, List.append_assoc w, ← hs]

/-- Trimming leaves every visible character. -/
theorem mem_trim_of_mem {b : UInt8} (hb : b < 0x80 ∧ isBlankByte b = false) {t : Text}
    (h : b ∈ t) : b ∈ trim t := by
  obtain ⟨left, right, hleft, hright, ht, -⟩ := exists_trim t
  rw [ht, List.mem_append, List.mem_append] at h
  exact (h.resolve_right (hright.not_mem hb)).resolve_left (hleft.not_mem hb)

/-- Elements at the start are dropped up to one that stops it; those right before it go
only if all others go. -/
theorem dropWhile_append_stop
    {α : Type} {p : α → Bool} {a : α} (ha : p a = false) {ys : List α}
    (hys : ∀ y ∈ ys, p y = true) (xs zs : List α) :
    (xs ++ ys ++ a :: zs).dropWhile p =
      xs.dropWhile p ++ (if xs.dropWhile p = [] then [] else ys) ++ a :: zs := by
  have hstop : (ys ++ a :: zs).dropWhile p = a :: zs := by
    rw [List.dropWhile_append_of_pos hys, List.dropWhile_cons_of_neg (by simp [ha])]
  rw [List.append_assoc, List.dropWhile_append, hstop]
  by_cases hxs : xs.dropWhile p = []
  · simp [hxs]
  · simp [hxs]

theorem dropWhile_reverse_append_stop
    {α : Type} {p : α → Bool} {a : α} (ha : p a = false) {ys : List α}
    (hys : ∀ y ∈ ys, p y = true) (xs zs : List α) :
    ((xs ++ a :: (ys ++ zs)).reverse.dropWhile p).reverse =
      xs ++ a :: ((if (zs.reverse.dropWhile p).reverse = [] then [] else ys) ++
        (zs.reverse.dropWhile p).reverse) := by
  have hys' : ∀ y ∈ ys.reverse, p y = true := fun y hy => hys y (List.mem_reverse.mp hy)
  have hreverse : (xs ++ a :: (ys ++ zs)).reverse =
      zs.reverse ++ ys.reverse ++ a :: xs.reverse := by simp
  rw [hreverse, dropWhile_append_stop ha hys']
  by_cases hzs : zs.reverse.dropWhile p = []
  · simp only [hzs, if_true, List.reverse_nil, List.append_nil, List.nil_append,
      List.reverse_cons, List.reverse_reverse]
  · have hzs' : (zs.reverse.dropWhile p).reverse ≠ [] := by
      rwa [ne_eq, List.reverse_eq_nil_iff]
    simp only [if_neg hzs, if_neg hzs', List.reverse_append, List.reverse_cons,
      List.reverse_reverse, List.append_assoc, List.cons_append, List.nil_append]

/-- Trimming stops at a visible character.  White space beside it stays there unless
nothing else stands on that side. -/
theorem exists_trim_append_cons {b : UInt8} (hb : b < 0x80) (hvisible : isBlankByte b = false)
    (s : Text) :
    ∃ s', ∀ t, ∃ t', trim (s ++ b :: t) = s' ++ b :: t' ∧ ∀ u v, IsWhite u → IsWhite v →
      trim (s ++ u ++ b :: (v ++ t)) =
        s' ++ (if s' = [] then [] else u) ++ b :: ((if t' = [] then [] else v) ++ t') := by
  have hstop : isBlankGlyph (.scalar (Char.ofNat b.toNat)) = false := hvisible
  have hif : ∀ {gs : List Glyph} {w : Text},
      ofGlyphs (if gs = [] then [] else glyphs w) = if ofGlyphs gs = [] then [] else w := by
    intro gs w
    cases gs with
    | nil => rfl
    | cons g gs => simp [ofGlyphs_cons, bytes_ne_nil, ofGlyphs_glyphs]
  refine ⟨ofGlyphs ((glyphs s).dropWhile isBlankGlyph), fun t =>
    ⟨ofGlyphs ((glyphs t).reverse.dropWhile isBlankGlyph).reverse, ?_⟩⟩
  have haround : ∀ u v, IsWhite u → IsWhite v →
      trim (s ++ u ++ b :: (v ++ t)) =
        ofGlyphs ((glyphs s).dropWhile isBlankGlyph) ++
          (if ofGlyphs ((glyphs s).dropWhile isBlankGlyph) = [] then [] else u) ++
          b :: ((if ofGlyphs ((glyphs t).reverse.dropWhile isBlankGlyph).reverse = [] then []
            else v) ++ ofGlyphs ((glyphs t).reverse.dropWhile isBlankGlyph).reverse) := by
    intro u v hu hv
    rw [trim, glyphs_append_cons hb, hu.append_glyphs, hv.glyphs_append,
      dropWhile_append_stop hstop hu.isBlankGlyph,
      dropWhile_reverse_append_stop hstop hv.isBlankGlyph, ofGlyphs_append, ofGlyphs_cons,
      ofGlyphs_append, ofGlyphs_append, hif, hif, bytes_scalar_ascii hb]
    rfl
  refine ⟨?_, haround⟩
  have hbare := haround [] [] isWhite_nil isWhite_nil
  simpa only [List.append_nil, List.nil_append, ite_self] using hbare

end Trimmed

/-! ## Pieces -/

section Pieces

variable {sep : UInt8} {w : Text}

/-- What holds of a text without the separator, and of a text with one more piece in
front, holds of every text. -/
@[elab_as_elim]
theorem split_induction (sep : UInt8) {motive : Text → Prop} (piece : ∀ s, sep ∉ s → motive s)
    (step : ∀ s t, sep ∉ s → motive t → motive (s ++ sep :: t)) (t : Text) : motive t := by
  induction hn : t.length using Nat.strongRecOn generalizing t with
  | ind n ih =>
      by_cases hmem : sep ∈ t
      · obtain ⟨s, rest, rfl, hs⟩ := List.eq_append_cons_of_mem hmem
        have hlt : rest.length < n := by
          rw [List.length_append, List.length_cons] at hn
          omega
        exact step s rest hs (ih _ hlt rest rfl)
      · exact piece t hmem

theorem split_append_sep (s t : Text) : split sep (s ++ sep :: t) = split sep s ++ split sep t := by
  induction s using split_induction sep with
  | piece s hs => rw [split_append_cons hs, split_of_not_mem hs, List.singleton_append]
  | step s rest hs ih =>
      rw [List.append_assoc, List.cons_append, split_append_cons hs, split_append_cons hs, ih,
        List.cons_append]

/-- What is put between two texts and holds no separator stands between the last piece
of the first one and the first piece of the second one. -/
theorem exists_split_append (sep : UInt8) (s t : Text) :
    ∃ first others, ∀ z, sep ∉ z →
      split sep (s ++ (z ++ t)) =
        (split sep s).dropLast ++ ((split sep s).getLastD [] ++ (z ++ first)) :: others := by
  induction s using split_induction sep with
  | piece s hs =>
      rw [split_of_not_mem hs]
      by_cases hmem : sep ∈ t
      · obtain ⟨first, rest, rfl, hfirst⟩ := List.eq_append_cons_of_mem hmem
        refine ⟨first, split sep rest, fun z hz => ?_⟩
        have hnone : sep ∉ s ++ (z ++ first) := by simp [hs, hz, hfirst]
        have hcut : s ++ (z ++ (first ++ sep :: rest)) = s ++ (z ++ first) ++ sep :: rest := by simp
        rw [hcut, split_append_cons hnone]
        rfl
      · refine ⟨t, [], fun z hz => ?_⟩
        have hnone : sep ∉ s ++ (z ++ t) := by simp [hs, hz, hmem]
        rw [split_of_not_mem hnone]
        rfl
  | step s rest hs ih =>
      obtain ⟨first, others, h⟩ := ih
      refine ⟨first, others, fun z hz => ?_⟩
      obtain ⟨piece, pieces, hrest⟩ := List.exists_cons_of_ne_nil (split_ne_nil sep rest)
      rw [List.append_assoc, List.cons_append, split_append_cons hs, split_append_cons hs, h z hz,
        hrest, List.dropLast_cons_cons, List.cons_append]
      simp

/-- White space at the end of a text does not show in its trimmed pieces. -/
theorem map_trim_split_append_white (hw : IsWhite w) (hsep : sep ∉ w) (s : Text) :
    (split sep (s ++ w)).map trim = (split sep s).map trim := by
  induction s using split_induction sep with
  | piece s hs =>
      have hnone : sep ∉ s ++ w := fun hmem => (List.mem_append.mp hmem).elim hs hsep
      rw [split_of_not_mem hnone, split_of_not_mem hs, List.map_singleton, List.map_singleton,
        trim_append_white hw]
  | step s rest hs ih =>
      rw [List.append_assoc, List.cons_append, split_append_cons hs, split_append_cons hs,
        List.map_cons, List.map_cons, ih]

theorem map_trim_split_white_append (hw : IsWhite w) (hsep : sep ∉ w) (s : Text) :
    (split sep (w ++ s)).map trim = (split sep s).map trim := by
  induction s using split_induction sep with
  | piece s hs =>
      have hnone : sep ∉ w ++ s := fun hmem => (List.mem_append.mp hmem).elim hsep hs
      rw [split_of_not_mem hnone, split_of_not_mem hs, List.map_singleton, List.map_singleton,
        trim_white_append hw]
  | step s rest hs _ =>
      have hnone : sep ∉ w ++ s := fun hmem => (List.mem_append.mp hmem).elim hsep hs
      rw [← List.append_assoc, split_append_cons hnone, split_append_cons hs, List.map_cons,
        List.map_cons, trim_white_append hw]

end Pieces

/-! ## Narrow blanks -/

/-- Nothing but narrow blanks. -/
def IsNarrow (t : Text) : Prop :=
  ∀ b ∈ t, isNarrowBlank b = true

instance : DecidablePred IsNarrow := fun t =>
  List.decidableBAll (fun b => isNarrowBlank b = true) t

section Narrow

variable {w : Text} {b : UInt8}

theorem isNarrow_nil : IsNarrow [] :=
  fun _ hb => absurd hb List.not_mem_nil

theorem ascii_of_isNarrowBlank (h : isNarrowBlank b = true) : b < 0x80 ∧ isBlankByte b = true :=
  forall_byte (P := fun b => isNarrowBlank b = true → b < 0x80 ∧ isBlankByte b = true)
    (by decide +kernel) b h

theorem IsNarrow.isWhite (hw : IsNarrow w) : IsWhite w := by
  induction w with
  | nil => exact isWhite_nil
  | cons b rest ih =>
      obtain ⟨hb, hrest⟩ := List.forall_mem_cons.mp hw
      obtain ⟨hascii, hblank⟩ := ascii_of_isNarrowBlank hb
      have hwhite := (ih hrest).cons (c := Char.ofNat b.toNat) hblank
      have hbytes : String.utf8EncodeChar (Char.ofNat b.toNat) = [b] := bytes_scalar_ascii hascii
      rwa [hbytes] at hwhite

/-- A blank that is not narrow has no narrow byte in it. -/
theorem isNarrowBlank_eq_false_of_mem {c : Char} (hc : ¬IsNarrow (String.utf8EncodeChar c))
    (hb : b ∈ String.utf8EncodeChar c) : isNarrowBlank b = false := by
  rw [Bool.eq_false_iff]
  intro hnarrow
  have hascii := (ascii_of_isNarrowBlank hnarrow).1
  have hbytes : String.utf8EncodeChar (Char.ofNat b.toNat) = [b] := bytes_scalar_ascii hascii
  rw [eq_ofNat_of_mem_utf8EncodeChar hascii hb, hbytes] at hc
  exact hc (List.forall_mem_singleton.mpr hnarrow)

/-- Any other byte stops the trimming. -/
theorem trimNarrowLeft_append_cons (hb : isNarrowBlank b = false) (s t : Text) :
    trimNarrowLeft (s ++ b :: t) = trimNarrowLeft s ++ b :: t := by
  induction s with
  | nil => simp [trimNarrowLeft, hb]
  | cons a others ih =>
      by_cases ha : isNarrowBlank a = true
      · simpa [trimNarrowLeft, ha] using ih
      · simp [trimNarrowLeft, ha]

theorem trimNarrowRight_append_cons (hb : isNarrowBlank b = false) (s t : Text) :
    trimNarrowRight (s ++ b :: t) = s ++ b :: trimNarrowRight t := by
  have h := trimNarrowLeft_append_cons hb t.reverse s.reverse
  have hreverse : (s ++ b :: t).reverse = t.reverse ++ b :: s.reverse := by simp
  rw [trimNarrowLeft] at h
  rw [trimNarrowRight, hreverse, h]
  simp [trimNarrowLeft, trimNarrowRight]

theorem trimNarrowLeft_narrow_append (hw : IsNarrow w) (s : Text) :
    trimNarrowLeft (w ++ s) = trimNarrowLeft s :=
  List.dropWhile_append_of_pos hw

theorem trimNarrowRight_append_narrow (hw : IsNarrow w) (s : Text) :
    trimNarrowRight (s ++ w) = trimNarrowRight s := by
  have hreverse : ∀ b ∈ w.reverse, isNarrowBlank b = true :=
    fun b hb => hw b (List.mem_reverse.mp hb)
  rw [trimNarrowRight, List.reverse_append, List.dropWhile_append_of_pos hreverse, trimNarrowRight]

/-- Narrow blanks are all that trimming removes. -/
theorem exists_trimNarrowLeft (t : Text) : ∃ w, IsNarrow w ∧ t = w ++ trimNarrowLeft t :=
  ⟨t.takeWhile isNarrowBlank, List.all_eq_true.mp List.all_takeWhile,
    List.takeWhile_append_dropWhile.symm⟩

theorem exists_trimNarrowRight (t : Text) : ∃ w, IsNarrow w ∧ t = trimNarrowRight t ++ w := by
  obtain ⟨w, hw, ht⟩ := exists_trimNarrowLeft t.reverse
  refine ⟨w.reverse, fun b hb => hw b (List.mem_reverse.mp hb), ?_⟩
  rw [trimNarrowRight, ← List.reverse_append, ← trimNarrowLeft, ← ht, List.reverse_reverse]

/-- It does not matter at which end trimming starts. -/
theorem trimNarrowLeft_trimNarrowRight (t : Text) :
    trimNarrowLeft (trimNarrowRight t) = trimNarrowRight (trimNarrowLeft t) := by
  obtain ⟨w, hw, ht⟩ := exists_trimNarrowLeft t
  cases hrest : trimNarrowLeft t with
  | nil =>
      rw [hrest, List.append_nil] at ht
      have hnil : trimNarrowRight ([] ++ w) = trimNarrowRight [] :=
        trimNarrowRight_append_narrow hw []
      rw [ht, ← List.nil_append w, hnil]
      rfl
  | cons b rest =>
      have hb : isNarrowBlank b = false :=
        head?_dropWhile_eq_false isNarrowBlank t b (by rw [← trimNarrowLeft, hrest]; rfl)
      rw [hrest] at ht
      have hstart := trimNarrowRight_append_cons hb [] rest
      rw [List.nil_append, List.nil_append] at hstart
      rw [ht, trimNarrowRight_append_cons hb, trimNarrowLeft_narrow_append hw, hstart,
        trimNarrowLeft, List.dropWhile_cons_of_neg (by simp [hb])]

theorem items_trimNarrowLeft (t : Text) : items (trimNarrowLeft t) = items t := by
  obtain ⟨w, hw, ht⟩ := exists_trimNarrowLeft t
  exact (items_white_append hw.isWhite _).symm.trans (congrArg items ht.symm)

theorem items_trimNarrowRight (t : Text) : items (trimNarrowRight t) = items t := by
  obtain ⟨w, hw, ht⟩ := exists_trimNarrowRight t
  exact (items_append_white hw.isWhite _).symm.trans (congrArg items ht.symm)

/-- The first blank that is not narrow. -/
theorem IsWhite.exists_first_wide (hw : IsWhite w) (hwide : ¬IsNarrow w) :
    ∃ before c after, w = before ++ (String.utf8EncodeChar c ++ after) ∧ IsNarrow before ∧
      isBlank c = true ∧ ¬IsNarrow (String.utf8EncodeChar c) ∧ IsWhite after := by
  obtain ⟨cs, hcs, rfl⟩ := hw
  induction cs with
  | nil => exact absurd isNarrow_nil hwide
  | cons c cs ih =>
      obtain ⟨hc, hcs⟩ := List.forall_mem_cons.mp hcs
      rw [List.flatMap_cons] at hwide ⊢
      by_cases hnarrow : IsNarrow (String.utf8EncodeChar c)
      · have hrest : ¬IsNarrow (cs.flatMap String.utf8EncodeChar) :=
          fun hrest => hwide (List.forall_mem_append.mpr ⟨hnarrow, hrest⟩)
        obtain ⟨before, c', after, heq, hbefore, h⟩ := ih hcs hrest
        exact ⟨String.utf8EncodeChar c ++ before, c', after, by rw [heq, List.append_assoc],
          List.forall_mem_append.mpr ⟨hnarrow, hbefore⟩, h⟩
      · exact ⟨[], c, _, rfl, isNarrow_nil, hc, hnarrow, cs, hcs, rfl⟩

/-- The last blank that is not narrow. -/
theorem IsWhite.exists_last_wide (hw : IsWhite w) (hwide : ¬IsNarrow w) :
    ∃ before c after, w = before ++ (String.utf8EncodeChar c ++ after) ∧ IsWhite before ∧
      isBlank c = true ∧ ¬IsNarrow (String.utf8EncodeChar c) ∧ IsNarrow after := by
  obtain ⟨cs, hcs, rfl⟩ := hw
  induction cs with
  | nil => exact absurd isNarrow_nil hwide
  | cons c cs ih =>
      obtain ⟨hc, hcs⟩ := List.forall_mem_cons.mp hcs
      rw [List.flatMap_cons] at hwide ⊢
      by_cases hrest : IsNarrow (cs.flatMap String.utf8EncodeChar)
      · have hc' : ¬IsNarrow (String.utf8EncodeChar c) :=
          fun hnarrow => hwide (List.forall_mem_append.mpr ⟨hnarrow, hrest⟩)
        exact ⟨[], c, _, rfl, isWhite_nil, hc, hc', hrest⟩
      · obtain ⟨before, c', after, heq, hbefore, h⟩ := ih hcs hrest
        exact ⟨String.utf8EncodeChar c ++ before, c', after, by rw [heq, List.append_assoc],
          hbefore.cons hc, h⟩

end Narrow

end Population.Text
