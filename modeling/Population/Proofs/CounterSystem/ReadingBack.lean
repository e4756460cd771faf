import Population.CounterSystem.Printer
import Population.Proofs.CounterSystem.Naming

/-!
# Counter systems are read back

Printing a system and reading the text gives the system back, whatever 64-bit
numbers it holds.  The reader goes over the text item by item; between two items
it meets nothing but spaces and line ends.  What was read can be printed, so
reading, printing and reading again changes nothing.
-/

namespace Population

open Text (byte IsPadding)
open Description (exists_of_bind_eq_ok)

namespace CounterSystem

/-! ## Steps of the reader -/

/-- Bytes at which skipping stops. -/
def stops (b : UInt8) : Bool :=
  !isBlank b && b != byte '/'

theorem stops_of_startsWord {b : UInt8} (h : startsWord b = true) : stops b = true :=
  Text.forall_byte (P := fun b => startsWord b = true → stops b = true) (by decide +kernel) b h

theorem skipFrom_padding {pad : Text} (hpad : IsPadding pad) (line : Nat) (rest : Text) :
    ∃ line', skipFrom false line (pad ++ rest) = skipFrom false line' rest := by
  induction pad generalizing line with
  | nil => exact ⟨line, rfl⟩
  | cons b others ih =>
      obtain ⟨hb, hothers⟩ := List.forall_mem_cons.mp hpad
      rcases hb with rfl | rfl
      · exact ih hothers line
      · exact ih hothers (line + 1)

theorem skipFrom_stop {b : UInt8} (hb : stops b = true) (line : Nat) (rest : Text) :
    skipFrom false line (b :: rest) = ⟨line, b :: rest⟩ := by
  simp only [stops, Bool.and_eq_true, Bool.not_eq_true', bne_iff_ne] at hb
  have hend : b ≠ byte '\n' := by
    rintro rfl
    exact absurd hb.1 (by decide)
  simp [skipFrom, hend, hb.1, hb.2]

section Steps

variable {p : Place} {pad rest : Text}

theorem Place.skip_rest
    (hpad : IsPadding pad) {b : UInt8} (hb : stops b = true) (hp : p.rest = pad ++ b :: rest) :
    p.skip.rest = b :: rest := by
  obtain ⟨line, hline⟩ := skipFrom_padding hpad p.line (b :: rest)
  rw [Place.skip, hp, hline, skipFrom_stop hb]

theorem Place.skip_rest_end (hpad : IsPadding pad) (hp : p.rest = pad) : p.skip.rest = [] := by
  obtain ⟨line, hline⟩ := skipFrom_padding hpad p.line []
  rw [List.append_nil] at hline
  rw [Place.skip, hp, hline]
  rfl

theorem Place.word_padded
    (hpad : IsPadding pad) {word : Text} (hword : isWord word = true) {b : UInt8}
    (hb : continuesWord b = false) (hp : p.rest = pad ++ (word ++ b :: rest)) :
    ∃ p', p.word = .ok (word, p') ∧ p'.rest = b :: rest := by
  cases word with
  | nil => simp [isWord] at hword
  | cons first others =>
      simp only [isWord, Bool.and_eq_true, List.all_eq_true] at hword
      have hskip := Place.skip_rest hpad (stops_of_startsWord hword.1) hp
      have htake : (others ++ b :: rest).takeWhile continuesWord = others := by
        simp [List.takeWhile_append_of_pos hword.2, hb]
      have hdrop : (others ++ b :: rest).dropWhile continuesWord = b :: rest := by
        simp [List.dropWhile_append_of_pos hword.2, hb]
      refine ⟨⟨p.skip.line, b :: rest⟩, ?_, rfl⟩
      simp [Place.word, hskip, hword.1, htake, hdrop]

theorem Place.expect_padded
    (hpad : IsPadding pad) {b : UInt8} (hb : stops b = true) (hp : p.rest = pad ++ b :: rest) :
    ∃ p', p.expect b = .ok p' ∧ p'.rest = rest := by
  have hskip := Place.skip_rest hpad hb hp
  exact ⟨⟨p.skip.line, rest⟩, by simp [Place.expect, hskip], rfl⟩

theorem Place.upTo_delimited
    {raw : Text} {stop : UInt8} (hraw : stop ∉ raw) (hp : p.rest = raw ++ stop :: rest) :
    ∃ p', p.upTo stop = .ok (raw, p') ∧ p'.rest = rest := by
  refine ⟨⟨p.line + lineEnds raw, rest⟩, ?_, rfl⟩
  simp [Place.upTo, hp, Text.cut_append_cons hraw]

end Steps

theorem isWord_of_isValid {name : Text} (h : Name.isValid name = true) : isWord name = true := by
  have hstart : ∀ b, Name.isStart b = true → startsWord b = true :=
    Text.forall_byte (by decide +kernel)
  have hpart : ∀ b, Name.isPart b = true → continuesWord b = true :=
    Text.forall_byte (by decide +kernel)
  cases name with
  | nil => simp [Name.isValid] at h
  | cons b rest =>
      simp only [Name.isValid, Bool.and_eq_true, List.all_eq_true] at h
      simp only [isWord, Bool.and_eq_true, List.all_eq_true]
      exact ⟨hstart b h.1, fun c hc => hpart c (h.2 c hc)⟩

/-! ## Items -/

theorem exists_ofInt64_cons (v : Int64) :
    ∃ b others, Text.ofInt64 v = b :: others ∧ stops b = true := by
  obtain ⟨b, others, hcons⟩ := List.exists_cons_of_ne_nil (Text.ofInt64_ne_nil v)
  refine ⟨b, others, hcons, ?_⟩
  have hb : b ∈ Text.ofInt64 v := by simp [hcons]
  rcases Text.mem_ofInt hb with rfl | hdigit
  · decide
  · exact Text.forall_byte (P := fun b => Text.isDigit b = true → stops b = true)
      (by decide +kernel) b hdigit

/-- A declaration is entered as it was printed. -/
theorem readDeclaration_printed
    {d d' : Draft} {p : Place} {v : Counter} (hname : Name.isValid v.name = true)
    (hdeclare : d.declare v.name v.initial = .ok d') {rest : Text}
    (hp : p.rest = Text.cat [" ", v.name, " = ", Text.ofInt64 v.initial, ";", rest]) :
    ∃ p', readDeclaration d p = .ok (d', p') ∧ p'.rest = rest := by
  have hblank : IsPadding [byte ' '] := by decide
  have hsemicolon : byte ';' ∉ Text.ofInt64 v.initial :=
    Marking.not_mem_ofInt64 (by decide) (by decide) v.initial
  have hp : p.rest = [byte ' '] ++ (v.name ++ byte ' ' :: byte '=' ::
      ([byte ' '] ++ (Text.ofInt64 v.initial ++ byte ';' :: rest))) := by
    rw [hp]
    simp only [Text.cat_cons, Text.cat_nil, List.append_nil]
    rfl
  obtain ⟨p₁, hword, hp₁⟩ :=
    Place.word_padded hblank (isWord_of_isValid hname) (by decide) hp
  obtain ⟨p₂, hequals, hp₂⟩ := Place.expect_padded hblank (by decide) hp₁
  obtain ⟨b, others, hcons, hb⟩ := exists_ofInt64_cons v.initial
  have hskip : p₂.skip.rest = Text.ofInt64 v.initial ++ byte ';' :: rest := by
    rw [hcons] at hp₂ ⊢
    exact Place.skip_rest hblank hb hp₂
  obtain ⟨p₃, hupTo, hp₃⟩ := Place.upTo_delimited hsemicolon hskip
  refine ⟨p₃, ?_, hp₃⟩
  simp only [readDeclaration, hword, hequals, hupTo, bind, Except.bind,
    Text.trim_bare (Text.bare_ofInt64 v.initial), Text.toInt64?_ofInt64, hdeclare, Place.check]
  rfl

/-- A transition is entered as it was printed. -/
theorem readTransition_printed
    {d d' : Draft} {p : Place} {t : Transition} (hname : Name.isValid t.name = true)
    (hguard : t.guard.IsPlain) (hupdates : ∀ u ∈ t.updates, Name.isValid u.name = true)
    (hadd : d.addTransition t = .ok d') {before after rest : Text} (hbefore : IsPadding before)
    (hafter : IsPadding after)
    (hp : p.rest = Text.cat [" ", t.name, " [", t.guard.text, "] \x7b",
      before ++ t.updates.text ++ after, "\x7d", rest]) :
    ∃ p', readTransition d p = .ok (d', p') ∧ p'.rest = rest := by
  have hblank : IsPadding [byte ' '] := by decide
  have hbrace : byte '\x7d' ∉ before ++ t.updates.text ++ after :=
    List.not_mem_append
      (List.not_mem_append (hbefore.not_mem (by decide) (by decide))
        (Updates.brace_not_mem_text hupdates))
      (hafter.not_mem (by decide) (by decide))
  have hp : p.rest = [byte ' '] ++ (t.name ++ byte ' ' :: byte '[' ::
      (t.guard.text ++ byte ']' :: byte ' ' :: byte '\x7b' ::
        ((before ++ t.updates.text ++ after) ++ byte '\x7d' :: rest))) := by
    rw [hp]
    simp only [Text.cat_cons, Text.cat_nil, List.append_nil]
    rfl
  obtain ⟨p₁, hword, hp₁⟩ :=
    Place.word_padded hblank (isWord_of_isValid hname) (by decide) hp
  obtain ⟨p₂, hopen, hp₂⟩ := Place.expect_padded hblank (by decide) hp₁
  obtain ⟨p₃, hguardText, hp₃⟩ := Place.upTo_delimited (Guard.bracket_not_mem_text hguard) hp₂
  obtain ⟨p₄, hbody, hp₄⟩ := Place.expect_padded hblank (by decide) hp₃
  obtain ⟨p₅, hupdatesText, hp₅⟩ := Place.upTo_delimited hbrace hp₄
  refine ⟨p₅, ?_, hp₅⟩
  simp only [readTransition, hword, hopen, hguardText, hbody, hupdatesText, bind, Except.bind,
    Guard.read_text hguard, Updates.read_text hbefore hafter hupdates, Place.check, hadd]
  rfl

section Items

variable {d d' : Draft} {p : Place} {pad rest : Text}

theorem readItems_word
    (hpad : IsPadding pad) {word : Text} (hword : isWord word = true) {b : UInt8}
    (hb : continuesWord b = false) (hp : p.rest = pad ++ (word ++ b :: rest)) (fuel : Nat) :
    ∃ p', p'.rest = b :: rest ∧ readItems (fuel + 1) d p =
      if word = Text.ofString "int" then
        readDeclaration d p' >>= fun item => readItems fuel item.1 item.2
      else if word = Text.ofString "transition" then
        readTransition d p' >>= fun item => readItems fuel item.1 item.2
      else p'.fail (.unknownWord word) := by
  cases word with
  | nil => simp [isWord] at hword
  | cons first others =>
      have hstart : startsWord first = true := (Bool.and_eq_true_iff.mp hword).1
      have hskip := Place.skip_rest hpad (stops_of_startsWord hstart) hp
      have hclose : first ≠ byte '\x7d' := by
        rintro rfl
        exact absurd hstart (by decide)
      have hnone : IsPadding [] := by decide
      obtain ⟨p', hread, hp'⟩ := Place.word_padded hnone hword hb hskip
      refine ⟨p', hp', ?_⟩
      simp only [readItems, hskip, hread, if_neg hclose]
      rfl

theorem readItems_close
    (hpad : IsPadding pad) (hp : p.rest = pad ++ byte '\x7d' :: rest) (fuel : Nat) :
    ∃ p', p'.rest = rest ∧ readItems (fuel + 1) d p = .ok (d, p') := by
  have hskip := Place.skip_rest hpad (by decide) hp
  refine ⟨⟨p.skip.line, rest⟩, rfl, ?_⟩
  simp [readItems, hskip]

end Items

/-- From a text the reader enters items that turn one draft into another,
whatever blanks stand before it and whatever follows it; it may leave blanks at
its end. -/
def Passes (items : Nat) (t : Text) (d d' : Draft) : Prop :=
  ∀ ⦃pad rest : Text⦄ ⦃p : Place⦄ (fuel : Nat), IsPadding pad → p.rest = pad ++ (t ++ rest) →
    ∃ pad' p', IsPadding pad' ∧ p'.rest = pad' ++ rest ∧
      readItems (fuel + items) d p = readItems fuel d' p'

theorem Passes.append
    {m n : Nat} {s t : Text} {d d₁ d' : Draft} (hs : Passes m s d d₁) (ht : Passes n t d₁ d') :
    Passes (n + m) (s ++ t) d d' := by
  intro pad rest p fuel hpad hp
  obtain ⟨pad₁, p₁, hpad₁, hp₁, hfirst⟩ := hs (fuel + n) hpad (by simpa using hp)
  obtain ⟨pad₂, p₂, hpad₂, hp₂, hsecond⟩ := ht fuel hpad₁ hp₁
  refine ⟨pad₂, p₂, hpad₂, hp₂, ?_⟩
  rw [← hsecond, ← hfirst, Nat.add_assoc]

/-- Items printed one after the other are entered one after the other. -/
theorem passes_cat
    {α : Type} {text : α → Text} {enter : Draft → α → Except DeclareFault Draft} {xs : List α}
    (hpasses : ∀ x ∈ xs, ∀ d d', enter d x = .ok d' → Passes 1 (text x) d d')
    {d d' : Draft} (henter : xs.foldlM enter d = .ok d') :
    Passes xs.length (Text.cat (xs.map text)) d d' := by
  induction xs generalizing d with
  | nil =>
      cases henter
      intro pad rest p fuel hpad hp
      exact ⟨pad, p, hpad, hp, rfl⟩
  | cons x xs ih =>
      obtain ⟨hx, hxs⟩ := List.forall_mem_cons.mp hpasses
      rw [List.foldlM_cons] at henter
      obtain ⟨d₁, hfirst, hrest⟩ := exists_of_bind_eq_ok henter
      exact (hx d d₁ hfirst).append (ih hxs hrest)

theorem passes_counter
    {v : Counter} (hname : Name.isValid v.name = true) {d d' : Draft}
    (hdeclare : d.declare v.name v.initial = .ok d') : Passes 1 v.text d d' := by
  intro pad rest p fuel hpad hp
  have hindent : IsPadding (Text.ofString "    ") := by decide
  have hend : IsPadding [byte '\n'] := by decide
  have hp : p.rest = (pad ++ Text.ofString "    ") ++ (Text.ofString "int" ++ byte ' ' ::
      Text.cat [v.name, " = ", Text.ofInt64 v.initial, ";", [byte '\n'] ++ rest]) := by
    rw [hp]
    simp only [Counter.text, Text.cat_cons, Text.cat_nil, List.append_nil, List.append_assoc]
    rfl
  obtain ⟨p₁, hp₁, hitems⟩ :=
    readItems_word (d := d) (hpad.append hindent) (by decide) (by decide) hp fuel
  obtain ⟨p₂, hread, hp₂⟩ := readDeclaration_printed hname hdeclare hp₁
  refine ⟨[byte '\n'], p₂, hend, hp₂, ?_⟩
  rw [hitems, if_pos rfl, hread]
  rfl

/-- The body of a transition is its updates within blanks. -/
theorem exists_body (us : Updates) :
    ∃ before after, IsPadding before ∧ IsPadding after ∧
      Text.cat ["\n", if us.isEmpty then [] else Text.cat ["        ", us.text, "\n"], "    "] =
        before ++ us.text ++ after := by
  cases us with
  | nil => exact ⟨Text.ofString "\n    ", [], by decide, by decide, rfl⟩
  | cons u others =>
      refine ⟨Text.ofString "\n        ", Text.ofString "\n    ", by decide, by decide, ?_⟩
      simp only [List.isEmpty_cons, Bool.false_eq_true, if_false, Text.cat_cons, Text.cat_nil,
        List.append_nil, List.append_assoc]
      rfl

theorem passes_transition
    {t : Transition} (hname : Name.isValid t.name = true) (hguard : t.guard.IsPlain)
    (hupdates : ∀ u ∈ t.updates, Name.isValid u.name = true) {d d' : Draft}
    (hadd : d.addTransition t = .ok d') : Passes 1 t.text d d' := by
  intro pad rest p fuel hpad hp
  have hindent : IsPadding (Text.ofString "\n    ") := by decide
  have hend : IsPadding [byte '\n'] := by decide
  obtain ⟨before, after, hbefore, hafter, hbody⟩ := exists_body t.updates
  have hp : p.rest = (pad ++ Text.ofString "\n    ") ++ (Text.ofString "transition" ++ byte ' ' ::
      Text.cat [t.name, " [", t.guard.text, "] \x7b", before ++ t.updates.text ++ after, "\x7d",
        [byte '\n'] ++ rest]) := by
    rw [hp, ← hbody]
    simp only [Transition.text, Text.cat_cons, Text.cat_nil, List.append_nil, List.append_assoc]
    rfl
  obtain ⟨p₁, hp₁, hitems⟩ :=
    readItems_word (d := d) (hpad.append hindent) (by decide) (by decide) hp fuel
  obtain ⟨p₂, hread, hp₂⟩ :=
    readTransition_printed hname hguard hupdates hadd hbefore hafter hp₁
  refine ⟨[byte '\n'], p₂, hend, hp₂, ?_⟩
  rw [hitems, if_neg (by decide), if_pos rfl, hread]
  rfl

/-! ## Systems -/

theorem length_le_length_cat {α : Type} {text : α → Text} (htext : ∀ x, text x ≠ [])
    (xs : List α) : xs.length ≤ (Text.cat (xs.map text)).length := by
  induction xs with
  | nil => simp
  | cons x xs ih =>
      have hx := List.length_pos_iff.mpr (htext x)
      simp only [List.map_cons, Text.cat_cons, List.length_append, List.length_cons]
      omega

theorem exists_fuel (s : CounterSystem) :
    ∃ fuel, s.text.length + 1 = fuel + 1 + (s.transitions.length + s.counters.length) := by
  have hcounter : ∀ v : Counter, v.text ≠ [] := by
    simp [Counter.text, Text.ofString]
  have htransition : ∀ t : Transition, t.text ≠ [] := by
    simp [Transition.text, Text.ofString]
  have hcounters := length_le_length_cat hcounter s.counters
  have htransitions := length_le_length_cat htransition s.transitions
  -- Every item takes at least one byte of the text.
  have htext : s.transitions.length + s.counters.length ≤ s.text.length := by
    simp only [CounterSystem.text, Text.cat_cons, List.length_append]
    omega
  exact ⟨s.text.length - (s.transitions.length + s.counters.length), by omega⟩

/-- The items of a printed system are entered into a draft of that system. -/
theorem exists_passes {s : CounterSystem} (hs : s.Printable) :
    ∃ d, d.system = s ∧ Passes (s.transitions.length + s.counters.length)
      (Text.cat (s.counters.map Counter.text) ++ Text.cat (s.transitions.map Transition.text))
      (Draft.new s.name) d := by
  obtain ⟨d, hbuild, hsystem⟩ := Encoding.exists_build s.name hs.counter_valid
    hs.counters_nodup hs.transition_valid hs.transitions_nodup
  obtain ⟨d₁, hdeclare, hadd⟩ := exists_of_bind_eq_ok hbuild
  have hcounters :=
    passes_cat (fun v hv _ _ h => passes_counter (hs.counter_valid v hv) h) hdeclare
  have htransitions :=
    passes_cat (fun t ht _ _ h => passes_transition (hs.transition_valid t ht)
      (hs.guard_plain t ht) (hs.update_valid t ht) h) hadd
  exact ⟨d, hsystem, hcounters.append htransitions⟩

/-- A printed system is read back. -/
theorem read_text {s : CounterSystem} (hs : s.Printable) : read s.text = .ok s := by
  obtain ⟨d, hsystem, hpasses⟩ := exists_passes hs
  obtain ⟨fuel, hfuel⟩ := s.exists_fuel
  have hnone : IsPadding [] := by decide
  have hblank : IsPadding [byte ' '] := by decide
  have hend : IsPadding [byte '\n'] := by decide
  have hgal : (⟨1, s.text⟩ : Place).rest = [] ++ (Text.ofString "gal" ++ byte ' ' :: (s.name ++
      byte ' ' :: byte '\x7b' :: ([byte '\n'] ++ ((Text.cat (s.counters.map Counter.text) ++
        Text.cat (s.transitions.map Transition.text)) ++ byte '\x7d' :: [byte '\n'])))) := by
    simp only [CounterSystem.text, Text.cat_cons, Text.cat_nil, List.append_nil,
      List.append_assoc]
    rfl
  obtain ⟨p₁, hword, hp₁⟩ := Place.word_padded hnone (by decide) (by decide) hgal
  obtain ⟨p₂, hname, hp₂⟩ := Place.word_padded hblank hs.name_word (by decide) hp₁
  obtain ⟨p₃, hopen, hp₃⟩ := Place.expect_padded hblank (by decide) hp₂
  obtain ⟨pad, p₄, hpad, hp₄, hitems⟩ := hpasses (fuel + 1) hend hp₃
  obtain ⟨p₅, hp₅, hclose⟩ := readItems_close (d := d) hpad hp₄ fuel
  have hskip : p₅.skip.rest = [] := Place.skip_rest_end hend hp₅
  simp only [read, hword, hname, hopen, hfuel, hitems, hclose, bind, Except.bind, hskip]
  exact congrArg Except.ok hsystem

/-- Printing and reading changes neither a system that can be printed nor one
that was read from whatever text. -/
theorem read_text_unchanged :
    (∀ s : CounterSystem, s.Printable → read s.text = .ok s) ∧
      ∀ (t : Text) (s : CounterSystem), read t = .ok s → read s.text = .ok s := by
  refine ⟨fun s hs => read_text hs, ?_⟩
  intro t s hread
  exact read_text (read_printable hread)

/-- A system with a name beyond ASCII, numbers at the ends of the range and a
transition that does nothing. -/
def extremes : CounterSystem where
  name := [0xE9, byte '1']
  counters := [⟨"low", Int64.minValue⟩, ⟨"high", Int64.maxValue⟩]
  transitions :=
    [⟨"idle", [], []⟩,
      ⟨"meet", [⟨"low", .le, -1⟩, ⟨"high", .gt, 0⟩, ⟨"low", .ne, Int64.maxValue⟩],
        [⟨"low", 0⟩, ⟨"high", Int64.minValue⟩, ⟨"low", -7⟩]⟩]

theorem extremes_printable : extremes.Printable where
  counter_valid := by decide
  counters_nodup := by decide
  update_valid := by decide
  transitions_nodup := by decide
  name_word := by decide
  transition_valid := by decide
  guard_plain := by decide

theorem read_text_extremes :
    extremes.Printable ∧ read extremes.text = .ok extremes ∧
      ∃ s, read liftText = .ok s ∧ read s.text = .ok s := by
  obtain ⟨s, hread⟩ := exists_read_liftText
  exact ⟨extremes_printable, read_text_unchanged.1 extremes extremes_printable, s, hread,
    read_text_unchanged.2 liftText s hread⟩

end CounterSystem

end Population
