import Population.Proofs.Description.ReadingBack
import Population.Proofs.Description.Renumbering

/-!
# Blank lines and comments in descriptions

Only lines that count reach the sections.  Further lines that are blank or start
with `#` therefore change nothing but the numbers of the lines behind them: what
was read, and what was complained about, is the same at the place to which its
line has moved.
-/

namespace Population

open Text (byte)

namespace Description

/-! ## Texts and lines -/

/-- The text consists of the lines, each with a line feed behind it; the last line
feed may be missing. -/
structure MadeOf (t : Text) (ls : List Text) : Prop where
  unbroken : ∀ l ∈ ls, byte '\n' ∉ l
  text : t = ls.flatMap (· ++ [byte '\n']) ∨ t ++ [byte '\n'] = ls.flatMap (· ++ [byte '\n'])

/-- The line is blank, or `#` is its first character that is no white space. -/
def IsIdle (l : Text) : Prop :=
  l.trim = [] ∨ l.trim.head? = some (byte '#')

instance (l : Text) : Decidable (IsIdle l) :=
  inferInstanceAs (Decidable (l.trim = [] ∨ l.trim.head? = some (byte '#')))

/-- The lines that count among `ls`, trimmed, when the first one has the number
`start`. -/
def countedLines (start : Nat) (ls : List Text) : List Line :=
  (ls.zipIdx start).filterMap fun (raw, number) =>
    let text := raw.trim
    if isSignificant text then some ⟨number, text⟩ else none

/-- Exactly the idle lines do not count. -/
theorem isSignificant_eq_false_iff {l : Text} : isSignificant l.trim = false ↔ IsIdle l := by
  simp only [isSignificant, IsIdle, Bool.and_eq_false_iff, Bool.not_eq_false', List.isEmpty_iff,
    bne_eq_false_iff_eq]

section Counted

variable {start : Nat} {l : Text} {ls ms : List Text}

theorem countedLines_cons :
    countedLines start (l :: ls) =
      (if isSignificant l.trim then [⟨start, l.trim⟩] else []) ++ countedLines (start + 1) ls := by
  simp only [countedLines, List.zipIdx_cons, List.filterMap_cons]
  split_ifs <;> rfl

theorem countedLines_append :
    countedLines start (ls ++ ms) =
      countedLines start ls ++ countedLines (start + ls.length) ms := by
  rw [countedLines, List.zipIdx_append, List.filterMap_append]
  rfl

theorem countedLines_eq_nil_iff : countedLines start ls = [] ↔ ∀ l ∈ ls, IsIdle l := by
  induction ls generalizing start with
  | nil => simp [countedLines]
  | cons l rest ih =>
      rw [countedLines_cons, List.append_eq_nil_iff, ih, List.forall_mem_cons,
        ← isSignificant_eq_false_iff]
      cases isSignificant l.trim <;> simp

theorem countedLines_idle (h : ∀ l ∈ ls, IsIdle l) : countedLines start ls = [] :=
  countedLines_eq_nil_iff.mpr h

end Counted

/-- Every text is made of the pieces between its line feeds. -/
theorem madeOf_split (t : Text) : MadeOf t (Text.split (byte '\n') t) := by
  induction t using Text.split_induction (byte '\n') with
  | piece s hs =>
      rw [Text.split_of_not_mem hs]
      exact ⟨List.forall_mem_singleton.mpr hs, .inr (by simp)⟩
  | step s rest hs ih =>
      rw [Text.split_append_cons hs]
      refine ⟨List.forall_mem_cons.mpr ⟨hs, ih.unbroken⟩, ?_⟩
      obtain ⟨-, h | h⟩ := ih
      · left
        rw [List.flatMap_cons, ← h]
        simp
      · right
        rw [List.flatMap_cons, ← h]
        simp

/-- The reader sees the lines; an empty last line may escape it. -/
theorem MadeOf.rawLines_cases {t : Text} {ls : List Text} (h : MadeOf t ls) :
    rawLines t = ls ∨ rawLines t ++ [[]] = ls := by
  obtain ⟨hunbroken, rfl | htext⟩ := h
  · exact .inl (rawLines_terminated hunbroken)
  · rcases List.eq_nil_or_concat' ls with rfl | ⟨front, last, rfl⟩
    · simp at htext
    · obtain ⟨hfront, hlast⟩ := List.forall_mem_append.mp hunbroken
      have hlast := hlast last List.mem_cons_self
      -- Without its line feed the last line is what is left behind the others.
      have ht : t = front.flatMap (· ++ [byte '\n']) ++ last := by
        have hcut : t ++ [byte '\n'] =
            (front.flatMap (· ++ [byte '\n']) ++ last) ++ [byte '\n'] := by
          simpa using htext
        exact List.append_cancel_right hcut
      have hsplit : Text.split (byte '\n') t = front ++ [last] := by
        rw [ht, split_flatMap_append hfront, Text.split_of_not_mem hlast]
      rw [rawLines, hsplit]
      by_cases hempty : last = []
      · exact .inr (by simp [hempty])
      · exact .inl (by simp [hempty])

theorem MadeOf.significantLines_eq {t : Text} {ls : List Text} (h : MadeOf t ls) :
    significantLines t = countedLines 1 ls := by
  rcases h.rawLines_cases with hraw | hraw
  · rw [← hraw]
    rfl
  · have hblank : ∀ start, countedLines start [[]] = [] :=
      fun start => countedLines_idle (by decide)
    rw [← hraw, countedLines_append, hblank, List.append_nil]
    rfl

theorem MadeOf.short {t : Text} {ls : List Text} (h : MadeOf t ls)
    (hls : ∀ l ∈ ls, l.length < lineLimit) :
    (rawLines t).any (fun l => lineLimit ≤ l.length) = false := by
  have hraw : ∀ l ∈ rawLines t, l ∈ ls := by
    intro l hl
    rcases h.rawLines_cases with heq | heq
    · rwa [← heq]
    · rw [← heq]
      exact List.mem_append_left _ hl
  simpa using fun l hl => hls l (hraw l hl)

/-! ## Further lines -/

/-- The lines with further ones between them: `extra i` stands in front of the line
at position `i`, and behind the last line `extra` at the position after it.  The
first line here has position `i`. -/
def insertLines (extra : Nat → List Text) (i : Nat) : List Text → List Text
  | [] => extra i
  | l :: rest => extra i ++ l :: insertLines extra (i + 1) rest

/-- The number that line `n` has when the further lines are there: all that stand
before it are counted, too.  The end of the input keeps the number zero. -/
def newNumber (extra : Nat → List Text) (n : Nat) : Nat :=
  n + ((List.range n).flatMap extra).length

section Insertion

variable {extra : Nat → List Text}

theorem newNumber_zero : newNumber extra 0 = 0 := rfl

theorem newNumber_succ (n : Nat) :
    newNumber extra (n + 1) = newNumber extra n + (extra n).length + 1 := by
  simp only [newNumber, List.range_succ, List.flatMap_append, List.flatMap_singleton,
    List.length_append]
  omega

/-- The line is found at its new number, behind whatever stands in front. -/
theorem getElem?_append_insertLines
    {front : List Text} {i : Nat} (hfront : front.length = newNumber extra i) {ls : List Text}
    {n : Nat} (hn : n < ls.length) :
    (front ++ insertLines extra i ls)[newNumber extra (i + n + 1) - 1]? = ls[n]? := by
  induction ls generalizing front i n with
  | nil => simp at hn
  | cons l rest ih =>
      rw [insertLines, ← List.append_assoc]
      have hlength : (front ++ extra i).length = newNumber extra (i + 1) - 1 := by
        rw [List.length_append, newNumber_succ, hfront]
        omega
      cases n with
      | zero =>
          rw [Nat.add_zero, ← hlength, List.getElem?_append_right (Nat.le_refl _), Nat.sub_self]
          rfl
      | succ n =>
          have hnext : ((front ++ extra i) ++ [l]).length = newNumber extra (i + 1) := by
            rw [List.length_append, hlength, newNumber_succ]
            simp
          have hrest := ih hnext (Nat.lt_of_succ_lt_succ hn)
          rw [List.append_assoc, List.singleton_append] at hrest
          rw [List.getElem?_cons_succ, ← hrest, Nat.add_right_comm i 1 n]
          rfl

/-- The lines that count are the same ones with new numbers. -/
theorem countedLines_insertLines (hidle : ∀ i, ∀ l ∈ extra i, IsIdle l) (i : Nat)
    (ls : List Text) :
    countedLines (newNumber extra i + 1) (insertLines extra i ls) =
      (countedLines (i + 1) ls).map (·.renumber (newNumber extra)) := by
  induction ls generalizing i with
  | nil => exact countedLines_idle (hidle i)
  | cons l rest ih =>
      have hnumber : newNumber extra i + 1 + (extra i).length = newNumber extra (i + 1) := by
        rw [newNumber_succ]
        omega
      rw [insertLines, countedLines_append, countedLines_idle (hidle i), List.nil_append, hnumber,
        countedLines_cons, countedLines_cons, ih (i + 1), List.map_append]
      split_ifs <;> rfl

theorem mem_insertLines {l : Text} {i : Nat} {ls : List Text} (hl : l ∈ ls) :
    l ∈ insertLines extra i ls := by
  induction ls generalizing i with
  | nil => simp at hl
  | cons l' rest ih =>
      rw [insertLines, List.mem_append]
      rcases List.mem_cons.mp hl with rfl | hl
      · exact .inr List.mem_cons_self
      · exact .inr (List.mem_cons_of_mem l' (ih hl))

/-- Blank lines and comments mean nothing.  With further such lines anywhere the
text is accepted as before and rejected as before; the description is the same but
for the line numbers, the complaint has the same section, text and reason, and each
line number is the one to which the line has moved. -/
theorem idle_lines_insignificant
    {ls : List Text} {t t' : Text} (ht : MadeOf t ls) (ht' : MadeOf t' (insertLines extra 0 ls))
    (hidle : ∀ i, ∀ l ∈ extra i, IsIdle l)
    (hshort : ∀ l ∈ insertLines extra 0 ls, l.length < lineLimit) :
    (∀ n < ls.length, (insertLines extra 0 ls)[newNumber extra (n + 1) - 1]? = ls[n]?) ∧
      newNumber extra 0 = 0 ∧
      (∀ d, read t = .ok d → read t' = .ok (d.renumber (newNumber extra))) ∧
      ∀ e, read t = .error e → ∃ line part text fault,
        e = .malformed ⟨line, part, text, fault⟩ ∧
          read t' = .error (.malformed ⟨newNumber extra line, part, text, fault⟩) := by
  have hshort₀ : ∀ l ∈ ls, l.length < lineLimit := fun l hl => hshort l (mem_insertLines hl)
  have hlines : significantLines t' =
      (significantLines t).map (·.renumber (newNumber extra)) := by
    rw [ht.significantLines_eq, ht'.significantLines_eq]
    exact countedLines_insertLines hidle 0 ls
  have hread : readLines (significantLines t') =
      renumbered (newNumber extra) (·.renumber (newNumber extra))
        (readLines (significantLines t)) := by
    rw [hlines]
    exact readLines_renumber newNumber_zero _
  refine ⟨fun n hn => ?_, newNumber_zero, ?_⟩
  · have hstart : ([] : List Text).length = newNumber extra 0 := rfl
    have hplace := getElem?_append_insertLines hstart hn
    simpa using hplace
  simp only [read, ht.short hshort₀, ht'.short hshort, hread]
  cases readLines (significantLines t) with
  | ok d => simp [renumbered]
  | error e =>
      refine ⟨by simp, fun _ he => ⟨e.line, e.part, e.text, e.fault, ?_, ?_⟩⟩
      · cases he
        rfl
      · rfl

end Insertion

/-- The lines of `mixedText` that count. -/
def denseLines : List Text :=
  ["idle : 1 , active:0", "go stop", "idle: go, stop", "active:",
    "idle, sync, stop go go, go, active", "idle,sync,,stop,idle", "idle", "idle", "s0, s1",
    "sync", "s1: ,", "s0", "s0,sync,stop go go,s1"]

/-- The comment at the top of `mixedText` and its blank line. -/
def idleLines : Nat → List Text
  | 0 => ["# agents"]
  | 6 => [""]
  | _ => []

theorem idleLines_idle (i : Nat) : ∀ l ∈ idleLines i, IsIdle l := by
  unfold idleLines
  split <;> decide +kernel

theorem idle_lines_insignificant_mixed :
    MadeOf (denseLines.flatMap (· ++ [byte '\n'])) denseLines ∧
      MadeOf mixedText (insertLines idleLines 0 denseLines) ∧
      (∀ i, ∀ l ∈ idleLines i, IsIdle l) ∧
      (∀ l ∈ insertLines idleLines 0 denseLines, l.length < lineLimit) ∧
      ∃ d, read (denseLines.flatMap (· ++ [byte '\n'])) = .ok d ∧
        read mixedText = .ok (d.renumber (newNumber idleLines)) := by
  have hdense : MadeOf (denseLines.flatMap (· ++ [byte '\n'])) denseLines :=
    ⟨by decide +kernel, .inl rfl⟩
  have hmixed : MadeOf mixedText (insertLines idleLines 0 denseLines) :=
    ⟨by decide +kernel, .inl (by decide +kernel)⟩
  have hshort : ∀ l ∈ insertLines idleLines 0 denseLines, l.length < lineLimit := by
    decide +kernel
  obtain ⟨d, hread, -⟩ := exists_eq_ok_of_any
    (x := read (denseLines.flatMap (· ++ [byte '\n']))) (p := fun _ => true) (by decide +kernel)
  obtain ⟨-, -, haccepted, -⟩ := idle_lines_insignificant hdense hmixed idleLines_idle hshort
  exact ⟨hdense, hmixed, idleLines_idle, hshort, d, hread, haccepted d hread⟩

end Description

end Population
