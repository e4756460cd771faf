import Population.Proofs.Description.Writing
import Population.Proofs.Marking.Key
import Population.Proofs.Text.Spacing

/-!
# Descriptions are read back

Every description that conforms to the format is accepted when it is written, and
the reader gives it back up to the line numbers.  A section of many lines ends
where the next line lacks its mark, a colon for protocol entries and a comma for
agent transitions, and no line of the next section carries that mark.
-/

namespace Population

open Text (byte)

/-! ## Line numbers -/

/-- The entry without its line; an entry without a list counts as one with none listed. -/
def ProtocolEntry.withoutLine (e : ProtocolEntry) : ProtocolEntry :=
  { e with line := 0, listed := true }

/-- The transition without its line. -/
def LocalTransition.withoutLine (t : LocalTransition) : LocalTransition :=
  { t with line := 0 }

/-- The transition without its line. -/
def EnvironmentTransition.withoutLine (t : EnvironmentTransition) : EnvironmentTransition :=
  { t with line := 0 }

namespace Description

/-- The description without the lines where its parts stand. -/
def withoutLines (d : Description) : Description where
  agent := { d.agent with
    protocol := d.agent.protocol.map (·.withoutLine)
    transitions := d.agent.transitions.map (·.withoutLine) }
  environment := { d.environment with
    protocol := d.environment.protocol.map (·.withoutLine)
    transitions := d.environment.transitions.map (·.withoutLine) }

theorem agent_references_withoutLines (d : Description) :
    d.withoutLines.agent.references = d.agent.references := by
  simp [withoutLines, Agent.references, LocalTransition.withoutLine, ProtocolEntry.withoutLine,
    List.flatMap_map, Function.comp_def]

theorem environment_references_withoutLines (d : Description) :
    d.withoutLines.environment.references = d.environment.references := by
  simp [withoutLines, Environment.references, EnvironmentTransition.withoutLine,
    ProtocolEntry.withoutLine, List.flatMap_map, Function.comp_def]

/-- Lines do not matter to what connects the sections. -/
theorem linked_withoutLines_iff {d : Description} : d.withoutLines.Linked ↔ d.Linked := by
  have hagent := agent_references_withoutLines d
  have henvironment := environment_references_withoutLines d
  constructor
  · intro h
    exact { h with
      agent_declared := fun s hs => h.agent_declared s (hagent ▸ hs)
      environment_declared := fun s hs => h.environment_declared s (henvironment ▸ hs) }
  · intro h
    exact { h with
      agent_declared := fun s hs => h.agent_declared s (hagent ▸ hs)
      environment_declared := fun s hs => h.environment_declared s (henvironment ▸ hs) }

variable {part : Part} {l : Line} {rest : List Line}

/-! ## Lists of names -/

theorem Line.checkNames_of_valid {names : List Text} (h : ∀ n ∈ names, Name.isValid n = true) :
    l.checkNames part names = .ok () := by
  have hnone : names.find? (fun n => !Name.isValid n) = none := by
    rw [List.find?_eq_none]
    intro n hn
    simp [h n hn]
  rw [Line.checkNames, hnone]

section Lists

variable {names : List Text}

theorem not_mem_listText {b : UInt8} (h : ∀ n ∈ names, Name.isValid n = true)
    (hpart : Name.isPart b = false) (hcomma : b ≠ byte ',') (hblank : b ≠ byte ' ') :
    b ∉ listText names := by
  have hsep : b ∉ Text.ofString ", " := by
    have htext : Text.ofString ", " = [byte ',', byte ' '] := by decide
    simp [htext, hcomma, hblank]
  cases names with
  | nil =>
      have htext : listText [] = [byte ','] := by decide
      simp [htext, hcomma]
  | cons n others =>
      exact Text.not_mem_join hsep fun m hm => Marking.not_mem_of_isValid (h m hm) hpart

theorem items_listText (h : ∀ n ∈ names, Name.isValid n = true) :
    (listText names).items = names := by
  cases names with
  | nil => decide
  | cons n others => exact Text.items_join fun m hm => Text.isToken_of_isValid (h m hm)

/-- A blank in front of a list does not matter. -/
theorem items_blank_listText (h : ∀ n ∈ names, Name.isValid n = true) :
    Text.items (byte ' ' :: listText names) = names := by
  have hascii : Text.IsAscii ([byte ' '] ++ listText names) :=
    Text.IsAscii.append (by decide) (isLine_listText h).plain.ascii
  have hgap : ∀ b ∈ [byte ' '], Text.separates Text.isItemSep b = true :=
    List.forall_mem_singleton.mpr (by decide)
  calc
    Text.items ([byte ' '] ++ listText names) = (listText names).items :=
      Text.runs_gap_append hgap hascii
    _ = names := items_listText h

theorem readNameList_written (hl : l.text = listText names)
    (h : ∀ n ∈ names, Name.isValid n = true) :
    readNameList part (l :: rest) = .ok (names, rest) := by
  have hcolon : (listText names).contains (byte ':') = false := by
    simpa using not_mem_listText h (by decide) (by decide) (by decide)
  simp only [readNameList, readLine, hl, hcolon, Bool.false_eq_true, if_false, items_listText h,
    Line.checkNames_of_valid h]
  rfl

theorem readSingleName_written {name : Text} (hl : l.text = name)
    (h : Name.isValid name = true) : readSingleName part (l :: rest) = .ok (name, rest) := by
  simp only [readSingleName, readLine, hl, h, if_true]
  rfl

end Lists

/-! ## Agent states -/

section Colons

open Text (trimNarrowLeft trimNarrowRight isNarrowBlank)

theorem trimNarrowLeft_join (first last : Text) (inner : List Text) :
    trimNarrowLeft (Text.join [byte ':'] (first :: (inner ++ [last]))) =
      Text.join [byte ':'] (trimNarrowLeft first :: (inner ++ [last])) := by
  have hcolon : isNarrowBlank (byte ':') = false := by decide
  cases inner with
  | nil => simpa [Text.join] using Text.trimNarrowLeft_append_cons hcolon first last
  | cons second more => simpa [Text.join] using Text.trimNarrowLeft_append_cons hcolon first _

theorem trimNarrowRight_of_last {t : Text} (h : ∀ b ∈ t.getLast?, isNarrowBlank b = false) :
    trimNarrowRight t = t := by
  rw [← List.head?_reverse] at h
  rw [trimNarrowRight]
  cases hrev : t.reverse with
  | nil => simpa using hrev
  | cons b others =>
      have hb : isNarrowBlank b = false := h b (by simp [hrev])
      rw [List.dropWhile_cons_of_neg (by simp [hb]), ← hrev, List.reverse_reverse]

theorem tightenColons_of_not_mem {t : Text} (h : byte ':' ∉ t) : tightenColons t = t := by
  rw [tightenColons, Text.split_of_not_mem h]

/-- Behind the first colon the blanks at the start go as well. -/
theorem tightenColons_append_cons {s : Text} (h : byte ':' ∉ s) (t : Text) :
    tightenColons (s ++ byte ':' :: t) =
      trimNarrowRight s ++ byte ':' :: trimNarrowLeft (tightenColons t) := by
  have hcolon : Text.ofString ":" = [byte ':'] := by decide
  unfold tightenColons
  rw [Text.split_append_cons h]
  cases hsplit : Text.split (byte ':') t with
  | nil => exact absurd hsplit (Text.split_ne_nil _ t)
  | cons first others =>
      cases others with
      | nil => simp [Text.join, hcolon]
      | cons second more =>
          simp only [hcolon, List.dropLast_cons_cons, List.map_cons, List.cons_append,
            List.getLast?_cons_cons, trimNarrowLeft_join]
          simp [Text.join]

theorem isNarrowBlank_of_isTokenByte {b : UInt8} (h : Text.isTokenByte b = true) :
    isNarrowBlank b = false :=
  Text.forall_byte (P := fun b => Text.isTokenByte b = true → isNarrowBlank b = false)
    (by decide +kernel) b h

/-- An entry without the blank behind its colon. -/
def tightEntry (s : AgentState) : Text :=
  s.name ++ byte ':' :: Text.ofInt64 s.weight

theorem isToken_tightEntry {s : AgentState} (h : Name.isValid s.name = true) :
    Text.IsToken (tightEntry s) := by
  have hcolon : Text.IsToken [byte ':'] := ⟨by decide, List.forall_mem_singleton.mpr (by decide)⟩
  exact (Text.isToken_of_isValid h).append (hcolon.append (Text.isToken_ofInt64 s.weight))

theorem agentState_text (s : AgentState) :
    s.text = s.name ++ byte ':' :: byte ' ' :: Text.ofInt64 s.weight := by
  have hcolon : Text.ofString ": " = [byte ':', byte ' '] := by decide
  simp [AgentState.text, hcolon]

theorem trimNarrowLeft_weight (v : Int64) (t : Text) :
    trimNarrowLeft (byte ' ' :: (Text.ofInt64 v ++ t)) = Text.ofInt64 v ++ t := by
  obtain ⟨b, others, hcons⟩ := List.exists_cons_of_ne_nil (Text.ofInt64_ne_nil v)
  have hb : isNarrowBlank b = false :=
    isNarrowBlank_of_isTokenByte ((Text.isToken_ofInt64 v).inner b (by simp [hcons]))
  have hblank : isNarrowBlank (byte ' ') = true := by decide
  simp [trimNarrowLeft, hcons, hb, hblank]

theorem trimNarrowRight_append_name (t : Text) {name : Text} (h : Name.isValid name = true) :
    trimNarrowRight (t ++ name) = t ++ name := by
  apply trimNarrowRight_of_last
  intro b hb
  rw [List.getLast?_append_of_ne_nil _ (Name.ne_nil_of_isValid h)] at hb
  exact isNarrowBlank_of_isTokenByte
    ((Text.isToken_of_isValid h).inner b (List.mem_of_getLast? hb))

/-- Behind a weight, the entries lose the blanks behind their colons. -/
theorem tightenColons_entries
    (v : Int64) {states : List AgentState} (h : ∀ s ∈ states, Name.isValid s.name = true) :
    trimNarrowLeft (tightenColons
        (byte ' ' :: (Text.ofInt64 v ++ (states.map (·.text)).flatMap (Text.ofString ", " ++ ·)))) =
      Text.ofInt64 v ++ (states.map tightEntry).flatMap (Text.ofString ", " ++ ·) := by
  have hcomma : Text.ofString ", " = [byte ',', byte ' '] := by decide
  induction states generalizing v with
  | nil =>
      have hnone : byte ':' ∉ byte ' ' :: Text.ofInt64 v := by
        rw [List.mem_cons, not_or]
        exact ⟨by decide, Marking.not_mem_ofInt64 (by decide) (by decide) v⟩
      simpa [tightenColons_of_not_mem hnone] using trimNarrowLeft_weight v []
  | cons s others ih =>
      obtain ⟨hs, hothers⟩ := List.forall_mem_cons.mp h
      let before : Text := byte ' ' :: (Text.ofInt64 v ++ [byte ',', byte ' '])
      have hnone : byte ':' ∉ before ++ s.name := by
        simp only [before, List.mem_append, List.mem_cons, not_or, List.not_mem_nil]
        exact ⟨⟨by decide, Marking.not_mem_ofInt64 (by decide) (by decide) v, by decide, by decide,
          not_false⟩, Marking.not_mem_of_isValid hs (by decide)⟩
      have hcut : byte ' ' :: (Text.ofInt64 v ++
          ((s :: others).map (·.text)).flatMap (Text.ofString ", " ++ ·)) =
            before ++ s.name ++ byte ':' :: (byte ' ' :: (Text.ofInt64 s.weight ++
              (others.map (·.text)).flatMap (Text.ofString ", " ++ ·))) := by
        simp [before, agentState_text, hcomma]
      rw [hcut, tightenColons_append_cons hnone, ih s.weight hothers,
        trimNarrowRight_append_name before hs]
      have hfirst : before ++ s.name ++ byte ':' :: (Text.ofInt64 s.weight ++
          (others.map tightEntry).flatMap (Text.ofString ", " ++ ·)) =
            byte ' ' :: (Text.ofInt64 v ++
              ((s :: others).map tightEntry).flatMap (Text.ofString ", " ++ ·)) := by
        simp [before, tightEntry, hcomma]
      rw [hfirst, trimNarrowLeft_weight]

theorem tightenColons_join
    {states : List AgentState} (h : ∀ s ∈ states, Name.isValid s.name = true) :
    tightenColons (Text.join ", " (states.map (·.text))) =
      Text.join ", " (states.map tightEntry) := by
  cases states with
  | nil => decide
  | cons s others =>
      obtain ⟨hs, hothers⟩ := List.forall_mem_cons.mp h
      have hcolon : byte ':' ∉ s.name := Marking.not_mem_of_isValid hs (by decide)
      have hcut : Text.join ", " ((s :: others).map (·.text)) =
          s.name ++ byte ':' :: (byte ' ' :: (Text.ofInt64 s.weight ++
            (others.map (·.text)).flatMap (Text.ofString ", " ++ ·))) := by
        simp [Text.join, agentState_text]
      have htrim : trimNarrowRight s.name = s.name := trimNarrowRight_append_name [] hs
      rw [hcut, tightenColons_append_cons hcolon, tightenColons_entries s.weight hothers, htrim]
      simp [Text.join, tightEntry]

end Colons

theorem readAgentState_tight {s : AgentState} (hname : Name.isValid s.name = true)
    (hweight : 0 ≤ s.weight) : readAgentState l (tightEntry s) = .ok s :=
  readAgentState_eq_ok_iff.mpr
    ⟨Text.ofInt64 s.weight, rfl, hname, Text.toInt64?_ofInt64 s.weight, hweight⟩

theorem readAgentStates_written
    {states : List AgentState} (hl : l.text = Text.join ", " (states.map (·.text)))
    (hne : states ≠ []) (hnames : ∀ s ∈ states, Name.isValid s.name = true)
    (hweights : ∀ s ∈ states, 0 ≤ s.weight) :
    readAgentStates (l :: rest) = .ok (states, rest) := by
  have hitems : (tightenColons l.text).items = states.map tightEntry := by
    rw [hl, tightenColons_join hnames]
    exact Text.items_join (List.forall_mem_map.mpr fun s hs => isToken_tightEntry (hnames s hs))
  have hentries : (states.map tightEntry).isEmpty = false := by simpa using hne
  have hread : (states.map tightEntry).mapM (readAgentState l) = .ok states :=
    mapM_eq_ok_iff.mpr (List.forall₂_map_left_iff.mpr (List.forall₂_same.mpr fun s hs =>
      readAgentState_tight (hnames s hs) (hweights s hs)))
  simp only [readAgentStates, readLine, hitems, hentries, Bool.false_eq_true, if_false, hread]
  rfl

/-! ## Protocol entries -/

theorem readProtocolEntry_written
    {e : ProtocolEntry} (h : ∀ n ∈ e.names, Name.isValid n = true) :
    readProtocolEntry part l e.state (byte ' ' :: listText e.actions) =
      .ok { e with line := l.number, listed := true } := by
  obtain ⟨hstate, hactions⟩ := List.forall_mem_cons.mp h
  have hcolon : (byte ' ' :: listText e.actions).contains (byte ':') = false := by
    have hblank : byte ':' ≠ byte ' ' := by decide
    simpa [hblank] using not_mem_listText hactions (by decide) (by decide) (by decide)
  simp only [readProtocolEntry, Text.trim_bare (Text.bare_of_isValid hstate), hstate,
    Bool.not_true, Bool.false_eq_true, if_false, hcolon, items_blank_listText hactions,
    Line.checkNames_of_valid hactions]
  rfl

theorem protocolEntry_text (e : ProtocolEntry) :
    e.text = e.state ++ byte ':' :: byte ' ' :: listText e.actions := by
  have hcolon : Text.ofString ": " = [byte ':', byte ' '] := by decide
  simp [ProtocolEntry.text, hcolon]

/-- The entries end at the first line without a colon. -/
theorem readProtocolMap_written
    (part : Part) (rest : List Line) {es : List ProtocolEntry} {ls : List Line}
    (hls : ls.map (·.text) = es.map (·.text))
    (h : ∀ e ∈ es, ∀ n ∈ e.names, Name.isValid n = true)
    (hrest : ∀ l ∈ rest.head?, byte ':' ∉ l.text) :
    ∃ es', readProtocolMap part (ls ++ rest) = .ok (es', rest) ∧
      es'.map (·.withoutLine) = es.map (·.withoutLine) := by
  induction es generalizing ls with
  | nil =>
      obtain rfl : ls = [] := List.map_eq_nil_iff.mp hls
      refine ⟨[], ?_, rfl⟩
      cases rest with
      | nil => rfl
      | cons l others =>
          rw [List.nil_append, readProtocolMap, Text.cut_of_not_mem (hrest l rfl)]
  | cons e others ih =>
      obtain ⟨he, hothers⟩ := List.forall_mem_cons.mp h
      obtain ⟨l, ls, rfl, hl, hls⟩ := List.map_eq_cons_iff.mp hls
      obtain ⟨es', hread, hsame⟩ := ih hls hothers
      have hcolon : byte ':' ∉ e.state :=
        Marking.not_mem_of_isValid (he e.state List.mem_cons_self) (by decide)
      have hl : l.text = e.text := hl
      have hcut : l.text.cut (byte ':') = some (e.state, byte ' ' :: listText e.actions) := by
        rw [hl, protocolEntry_text, Text.cut_append_cons hcolon]
      refine ⟨{ e with line := l.number, listed := true } :: es', ?_, ?_⟩
      · rw [List.cons_append, readProtocolMap, hcut]
        simp only [readProtocolEntry_written he, hread]
        rfl
      · rw [List.map_cons, List.map_cons, hsame]
        rfl

/-! ## Transitions -/

/-- A text without colons and commas, and with no white space at its ends. -/
def IsField (t : Text) : Prop :=
  Text.Bare t ∧ byte ',' ∉ t ∧ byte ':' ∉ t

/-- Fields are read as they were written. -/
theorem readFields_written
    {fields : List Text} (hl : l.text = Text.join [byte ','] fields) (hne : fields ≠ [])
    (h : ∀ f ∈ fields, IsField f) :
    readFields part fields.length l = .ok fields := by
  have hcolon : l.text.contains (byte ':') = false := by
    have hnone : byte ':' ∉ Text.join [byte ','] fields :=
      Text.not_mem_join (by decide) fun f hf => (h f hf).2.2
    simpa [hl] using hnone
  have hsplit : Text.split (byte ',') l.text = fields := by
    rw [hl]
    exact Text.split_join hne fun f hf => (h f hf).2.1
  have htrim : fields.map Text.trim = fields := by
    calc
      fields.map Text.trim = fields.map id :=
        List.map_congr_left fun f hf => Text.trim_bare (h f hf).1
      _ = fields := List.map_id fields
  simp only [readFields, hcolon, Bool.false_eq_true, if_false, hsplit, htrim, ne_eq,
    not_true_eq_false]

theorem isField_of_isValid {name : Text} (h : Name.isValid name = true) : IsField name :=
  ⟨Text.bare_of_isValid h, Marking.not_mem_of_isValid h (by decide),
    Marking.not_mem_of_isValid h (by decide)⟩

theorem isField_group {names : List Text} (h : ∀ n ∈ names, Name.isValid n = true) :
    IsField (Text.join " " names) := by
  refine ⟨?_, ?_, ?_⟩
  · cases names with
    | nil => exact Text.bare_of_forall fun b hb => absurd hb List.not_mem_nil
    | cons n others =>
        exact (isLine_join (by decide) (List.cons_ne_nil n others)
          fun m hm => isLine_of_isValid (h m hm)).bare
  · exact Text.not_mem_join (by decide) fun n hn => Marking.not_mem_of_isValid (h n hn) (by decide)
  · exact Text.not_mem_join (by decide) fun n hn => Marking.not_mem_of_isValid (h n hn) (by decide)

theorem words_group {names : List Text} (h : ∀ n ∈ names, Name.isValid n = true) :
    (Text.join " " names).words = names :=
  Text.words_join fun n hn => Text.isToken_of_isValid (h n hn)

theorem othersOf_group
    {t : LocalTransition} {names : List Text} (hgroup : t.GroupedAs names)
    (hsorted : Text.Ascending t.concurrent) : othersOf names t.action = t.concurrent := by
  rcases hgroup with hperm | ⟨rfl, hnone⟩
  · have herase : (names.erase t.action).Perm t.concurrent := by
      have hcons := hperm.erase t.action
      rwa [List.erase_cons_head] at hcons
    exact Text.eq_of_perm_of_ascending (Text.sort_ascending _) hsorted
      ((Text.sort_perm _).trans herase)
  · rw [hnone]
    rfl

theorem isField_localTransition
    {t : LocalTransition} {names : List Text} (h : ∀ n ∈ t.names, Name.isValid n = true)
    (hgroup : t.GroupedAs names) :
    ∀ f ∈ [t.before, t.sync, Text.join " " names, t.action, t.after], IsField f := by
  have hnames := isField_group fun n hn => h n (mem_names_of_groupedAs hgroup hn)
  simp only [LocalTransition.names, List.forall_mem_append, List.forall_mem_cons] at h
  obtain ⟨⟨hbefore, hsync, haction, hafter, -⟩, -⟩ := h
  simp only [List.forall_mem_cons, List.not_mem_nil, false_implies, implies_true, and_true]
  exact ⟨isField_of_isValid hbefore, isField_of_isValid hsync, hnames,
    isField_of_isValid haction, isField_of_isValid hafter⟩

theorem readLocalTransition_written
    {t : LocalTransition} {names : List Text} (hl : l.text = t.text names)
    (h : ∀ n ∈ t.names, Name.isValid n = true) (hsorted : Text.Ascending t.concurrent)
    (hgroup : t.GroupedAs names) :
    readLocalTransition l = .ok { t with line := l.number } := by
  have hnames : ∀ n ∈ names, Name.isValid n = true :=
    fun n hn => h n (mem_names_of_groupedAs hgroup hn)
  have hfields : readFields .agentTransitions 5 l =
      .ok [t.before, t.sync, Text.join " " names, t.action, t.after] :=
    readFields_written hl (by simp) (isField_localTransition h hgroup)
  have hcheck : l.checkNames .agentTransitions
      ([t.before, t.sync, t.action, t.after] ++ names) = .ok () := by
    apply Line.checkNames_of_valid
    intro n hn
    rcases List.mem_append.mp hn with hn | hn
    · exact h n (List.mem_append_left _ hn)
    · exact hnames n hn
  have hown : (!names.isEmpty && !names.contains t.action) = false := by
    rcases hgroup with hperm | ⟨rfl, -⟩
    · have hmem : t.action ∈ names := hperm.mem_iff.mpr List.mem_cons_self
      simp [hmem]
    · rfl
  unfold readLocalTransition
  simp only [hfields, bind, Except.bind, words_group hnames, hcheck, hown, Bool.false_eq_true,
    if_false, othersOf_group hgroup hsorted]
  rfl

theorem contains_comma_join (first second : Text) (others : List Text) :
    (Text.join [byte ','] (first :: second :: others)).contains (byte ',') = true := by
  simp [Text.join]

/-- The agent transitions end at the first line without a comma. -/
theorem readLocalTransitions_written
    (rest : List Line) {ts : List LocalTransition} {group : LocalTransition → List Text}
    {ls : List Line}
    (hls : ls.map (·.text) = ts.map fun t => t.text (group t))
    (h : ∀ t ∈ ts, ∀ n ∈ t.names, Name.isValid n = true)
    (hsorted : ∀ t ∈ ts, Text.Ascending t.concurrent)
    (hgroup : ∀ t ∈ ts, t.GroupedAs (group t))
    (hrest : ∀ l ∈ rest.head?, byte ',' ∉ l.text) :
    ∃ ts', readLocalTransitions (ls ++ rest) = .ok (ts', rest) ∧
      ts'.map (·.withoutLine) = ts.map (·.withoutLine) := by
  induction ts generalizing ls with
  | nil =>
      obtain rfl : ls = [] := List.map_eq_nil_iff.mp hls
      refine ⟨[], ?_, rfl⟩
      cases rest with
      | nil => rfl
      | cons l others =>
          have hcomma : l.text.contains (byte ',') = false := by simpa using hrest l rfl
          rw [List.nil_append, readLocalTransitions, hcomma, if_neg Bool.false_ne_true]
  | cons t others ih =>
      obtain ⟨ht, hothers⟩ := List.forall_mem_cons.mp h
      obtain ⟨htSorted, hothersSorted⟩ := List.forall_mem_cons.mp hsorted
      obtain ⟨htGroup, hothersGroup⟩ := List.forall_mem_cons.mp hgroup
      obtain ⟨l, ls, rfl, hl, hls⟩ := List.map_eq_cons_iff.mp hls
      have hl : l.text = t.text (group t) := hl
      obtain ⟨ts', hread, hsame⟩ := ih hls hothers hothersSorted hothersGroup
      have hcomma : l.text.contains (byte ',') = true := by
        rw [hl]
        exact contains_comma_join _ _ _
      refine ⟨{ t with line := l.number } :: ts', ?_, ?_⟩
      · rw [List.cons_append, readLocalTransitions, hcomma, if_pos rfl,
          readLocalTransition_written hl ht htSorted htGroup, hread]
        rfl
      · rw [List.map_cons, List.map_cons, hsame]
        rfl

theorem readEnvironmentTransition_written
    {t : EnvironmentTransition} (hl : l.text = t.text)
    (h : ∀ n ∈ t.names, Name.isValid n = true) (hsorted : Text.Ascending t.agents) :
    readEnvironmentTransition l = .ok { t with line := l.number } := by
  have hall := h
  simp only [EnvironmentTransition.names, List.forall_mem_append, List.forall_mem_cons] at h
  obtain ⟨⟨hbefore, hsync, hafter, -⟩, hagents⟩ := h
  have hfields : readFields .environmentTransitions 4 l =
      .ok [t.before, t.sync, Text.join " " t.agents, t.after] := by
    refine readFields_written hl (by simp) ?_
    simp only [List.forall_mem_cons, List.not_mem_nil, false_implies, implies_true, and_true]
    exact ⟨isField_of_isValid hbefore, isField_of_isValid hsync, isField_group hagents,
      isField_of_isValid hafter⟩
  have hcheck : l.checkNames .environmentTransitions
      ([t.before, t.sync, t.after] ++ t.agents) = .ok () := Line.checkNames_of_valid hall
  have hcomma : l.text.contains (byte ',') = true := by
    rw [hl]
    exact contains_comma_join _ _ _
  have hsort : Text.sort t.agents = t.agents :=
    Text.eq_of_perm_of_ascending (Text.sort_ascending _) hsorted (Text.sort_perm _)
  unfold readEnvironmentTransition
  simp only [hcomma, Bool.not_true, Bool.false_eq_true, if_false, hfields, bind, Except.bind,
    words_group hagents, hcheck, hsort]
  rfl

theorem readEnvironmentTransitions_written
    {ts : List EnvironmentTransition} {ls : List Line} (hls : ls.map (·.text) = ts.map (·.text))
    (h : ∀ t ∈ ts, ∀ n ∈ t.names, Name.isValid n = true)
    (hsorted : ∀ t ∈ ts, Text.Ascending t.agents) :
    ∃ ts', ls.mapM readEnvironmentTransition = .ok ts' ∧
      ts'.map (·.withoutLine) = ts.map (·.withoutLine) := by
  induction ts generalizing ls with
  | nil =>
      obtain rfl : ls = [] := List.map_eq_nil_iff.mp hls
      exact ⟨[], rfl, rfl⟩
  | cons t others ih =>
      obtain ⟨ht, hothers⟩ := List.forall_mem_cons.mp h
      obtain ⟨htSorted, hothersSorted⟩ := List.forall_mem_cons.mp hsorted
      obtain ⟨l, ls, rfl, hl, hls⟩ := List.map_eq_cons_iff.mp hls
      obtain ⟨ts', hread, hsame⟩ := ih hls hothers hothersSorted
      refine ⟨{ t with line := l.number } :: ts', ?_, ?_⟩
      · rw [List.mapM_cons, readEnvironmentTransition_written hl ht htSorted, hread]
        rfl
      · rw [List.map_cons, List.map_cons, hsame]
        rfl

/-! ## Sections -/

variable {d : Description} {group : LocalTransition → List Text}

/-- Behind the agent protocol stands an agent transition or the initial state. -/
theorem not_mem_colon_behind_protocol
    {ts : List LocalTransition} {ls : List Line} {next : Line}
    (hls : ls.map (·.text) = ts.map fun t => t.text (group t))
    (h : ∀ t ∈ ts, ∀ n ∈ t.names, Name.isValid n = true)
    (hgroup : ∀ t ∈ ts, t.GroupedAs (group t)) (hnext : Name.isValid next.text = true) :
    ∀ l ∈ (ls ++ next :: rest).head?, byte ':' ∉ l.text := by
  cases ts with
  | nil =>
      obtain rfl : ls = [] := List.map_eq_nil_iff.mp hls
      rintro l ⟨⟩
      exact Marking.not_mem_of_isValid hnext (by decide)
  | cons t others =>
      obtain ⟨l, ls, rfl, hl, -⟩ := List.map_eq_cons_iff.mp hls
      rintro l ⟨⟩
      rw [hl]
      exact Text.not_mem_join (by decide) fun f hf =>
        (isField_localTransition (h t List.mem_cons_self) (hgroup t List.mem_cons_self) f hf).2.2

/-- The lines of a description fall into its eleven sections. -/
theorem exists_sections_of_lines {ls : List Line} (h : ls.map (·.text) = d.lines group) :
    ∃ l₁ l₂ ls₃ ls₄ l₅ l₆ l₇ l₈ ls₉ l₁₀ ls₁₁,
      ls = l₁ :: l₂ :: (ls₃ ++ (ls₄ ++ l₅ :: l₆ :: l₇ :: l₈ :: (ls₉ ++ l₁₀ :: ls₁₁))) ∧
      l₁.text = Text.join ", " (d.agent.states.map (·.text)) ∧
      l₂.text = listText d.agent.actions ∧
      ls₃.map (·.text) = d.agent.protocol.map (·.text) ∧
      ls₄.map (·.text) = d.agent.transitions.map (fun t => t.text (group t)) ∧
      l₅.text = d.agent.initial ∧ l₆.text = d.agent.leave ∧
      l₇.text = listText d.environment.states ∧ l₈.text = listText d.environment.actions ∧
      ls₉.map (·.text) = d.environment.protocol.map (·.text) ∧
      l₁₀.text = d.environment.initial ∧
      ls₁₁.map (·.text) = d.environment.transitions.map (·.text) := by
  obtain ⟨ls, ls₁₁, rfl, h, h₁₁⟩ := List.map_eq_append_iff.mp h
  obtain ⟨ls, ls₁₀, rfl, h, h₁₀⟩ := List.map_eq_append_iff.mp h
  obtain ⟨ls, ls₉, rfl, h, h₉⟩ := List.map_eq_append_iff.mp h
  obtain ⟨ls, ls₅, rfl, h, h₅⟩ := List.map_eq_append_iff.mp h
  obtain ⟨ls, ls₄, rfl, h, h₄⟩ := List.map_eq_append_iff.mp h
  obtain ⟨ls₁, ls₃, rfl, h₁, h₃⟩ := List.map_eq_append_iff.mp h
  simp only [List.map_eq_cons_iff, List.map_eq_nil_iff] at h₁ h₅ h₁₀
  obtain ⟨l₁, _, rfl, h₁, l₂, _, rfl, h₂, rfl⟩ := h₁
  obtain ⟨l₅, _, rfl, h₅, l₆, _, rfl, h₆, l₇, _, rfl, h₇, l₈, _, rfl, h₈, rfl⟩ := h₅
  obtain ⟨l₁₀, _, rfl, h₁₀, rfl⟩ := h₁₀
  refine ⟨l₁, l₂, ls₃, ls₄, l₅, l₆, l₇, l₈, ls₉, l₁₀, ls₁₁, ?_, h₁, h₂, h₃, h₄, h₅, h₆, h₇, h₈,
    h₉, h₁₀, h₁₁⟩
  simp only [List.cons_append, List.nil_append, List.append_assoc]

/-- The eleven sections are read one after the other as they were written. -/
theorem readSections_written
    (h : d.Conforms) (hgroup : ∀ t ∈ d.agent.transitions, t.GroupedAs (group t)) {ls : List Line}
    (hls : ls.map (·.text) = d.lines group) :
    ∃ d' layout, readSections ls = .ok (d', layout) ∧ d'.withoutLines = d.withoutLines := by
  obtain ⟨l₁, l₂, ls₃, ls₄, l₅, l₆, l₇, l₈, ls₉, l₁₀, ls₁₁, rfl, h₁, h₂, h₃, h₄, h₅, h₆, h₇, h₈,
    h₉, h₁₀, h₁₁⟩ := exists_sections_of_lines hls
  obtain ⟨hstates, hactions, hprotocol, htransitions, hinitial, hleave, henvStates, henvActions,
    henvProtocol, henvInitial, henvTransitions⟩ := forall_mem_names.mp h.names_valid
  have hcolon : ∀ l ∈ (ls₄ ++ l₅ :: l₆ :: l₇ :: l₈ :: (ls₉ ++ l₁₀ :: ls₁₁)).head?,
      byte ':' ∉ l.text :=
    not_mem_colon_behind_protocol h₄ htransitions hgroup (h₅ ▸ hinitial)
  have hcomma : ∀ l ∈ (l₅ :: l₆ :: l₇ :: l₈ :: (ls₉ ++ l₁₀ :: ls₁₁)).head?, byte ',' ∉ l.text := by
    rintro l ⟨⟩
    exact h₅ ▸ Marking.not_mem_of_isValid hinitial (by decide)
  have henvColon : ∀ l ∈ (l₁₀ :: ls₁₁).head?, byte ':' ∉ l.text := by
    rintro l ⟨⟩
    exact h₁₀ ▸ Marking.not_mem_of_isValid henvInitial (by decide)
  obtain ⟨protocol, hreadProtocol, hsameProtocol⟩ :=
    readProtocolMap_written .agentProtocol _ h₃ hprotocol hcolon
  obtain ⟨transitions, hreadTransitions, hsameTransitions⟩ :=
    readLocalTransitions_written _ h₄ htransitions h.concurrent_sorted hgroup hcomma
  obtain ⟨envProtocol, hreadEnvProtocol, hsameEnvProtocol⟩ :=
    readProtocolMap_written .environmentProtocol _ h₉ henvProtocol henvColon
  obtain ⟨envTransitions, hreadEnvTransitions, hsameEnvTransitions⟩ :=
    readEnvironmentTransitions_written h₁₁ henvTransitions h.agents_sorted
  let d' : Description :=
    { agent := { d.agent with protocol, transitions }
      environment := { d.environment with
        protocol := envProtocol, transitions := envTransitions } }
  refine ⟨d', ⟨l₁.number, l₅.number, l₆.number, l₇.number, l₁₀.number⟩, ?_, ?_⟩
  · unfold readSections
    simp only [readAgentStates_written h₁ h.states_ne_nil hstates h.weight_nonneg,
      readNameList_written h₂ hactions, hreadProtocol, hreadTransitions,
      readSingleName_written h₅ hinitial, readSingleName_written h₆ hleave,
      readNameList_written h₇ henvStates, readNameList_written h₈ henvActions,
      hreadEnvProtocol, readSingleName_written h₁₀ henvInitial, hreadEnvTransitions,
      bind, Except.bind]
    rfl
  · simp [d', withoutLines, hsameProtocol, hsameTransitions, hsameEnvProtocol,
      hsameEnvTransitions]

theorem read_written
    (h : d.Conforms) (hgroup : ∀ t ∈ d.agent.transitions, t.GroupedAs (group t))
    (hshort : ∀ l ∈ d.lines group, l.length < lineLimit) :
    ∃ d', read (d.text group) = .ok d' ∧ d'.withoutLines = d.withoutLines := by
  have hline := isLine_of_mem_lines h hgroup
  have hraw : rawLines (d.text group) = d.lines group :=
    rawLines_terminated fun l hl hmem => (plain_byte ((hline l hl).plain _ hmem)).2.1 rfl
  have hlimit : (rawLines (d.text group)).any (fun l => lineLimit ≤ l.length) = false := by
    rw [hraw, List.any_eq_false]
    intro l hl
    simpa using hshort l hl
  obtain ⟨d', layout, hsections, hsame⟩ :=
    readSections_written h hgroup (significantLines_terminated hline)
  have hlinked : d'.Linked := by
    rw [← linked_withoutLines_iff, hsame, linked_withoutLines_iff]
    exact h.toLinked
  have hlines : readLines (significantLines (d.text group)) = .ok d' := by
    simp only [readLines, text, hsections, checkReferences_eq_ok_iff.mpr hlinked, bind, Except.bind]
    rfl
  refine ⟨d', ?_, hsame⟩
  simp only [read, hlimit, Bool.false_eq_true, if_false, hlines]

/-- The reader accepts conforming descriptions, and all of them: whatever it accepts
conforms to the format, and every conforming description whose lines keep to the
limit is accepted when it is written and comes back up to the line numbers. -/
theorem read_conforming :
    (∀ (t : Text) (d : Description), read t = .ok d →
      d.Conforms ∧ ∀ e ∈ d.agent.protocol ++ d.environment.protocol, e.listed = true) ∧
    ∀ (d : Description) (group : LocalTransition → List Text), d.Conforms →
      (∀ t ∈ d.agent.transitions, t.GroupedAs (group t)) →
      (∀ l ∈ d.lines group, l.length < lineLimit) →
      ∃ d', read (d.text group) = .ok d' ∧ d'.withoutLines = d.withoutLines :=
  ⟨fun _ _ h => read_conforms h, fun _ _ h hgroup hshort => read_written h hgroup hshort⟩

/-- States without actions, groups in any order, and an agent that acts alone. -/
def mixedText : Text :=
  Text.cat
    ["# agents\n",
      "idle : 1 , active:0\n",
      "go stop\n",
      "idle: go, stop\n",
      "active:\n",
      "idle, sync, stop go go, go, active\n",
      "idle,sync,,stop,idle\n",
      "\n",
      "idle\n",
      "idle\n",
      "s0, s1\n",
      "sync\n",
      "s1: ,\n",
      "s0\n",
      "s0,sync,stop go go,s1\n"]

theorem read_conforming_mixed :
    ∃ d d', read mixedText = .ok d ∧ d.Conforms ∧
      (∀ t ∈ d.agent.transitions, t.GroupedAs (t.action :: t.concurrent)) ∧
      (∀ l ∈ d.lines fun t => t.action :: t.concurrent, l.length < lineLimit) ∧
      read (d.text fun t => t.action :: t.concurrent) = .ok d' ∧
      d'.withoutLines = d.withoutLines := by
  obtain ⟨d, hread, hshort⟩ := exists_eq_ok_of_any
    (x := read mixedText)
    (p := fun d => (d.lines fun t => t.action :: t.concurrent).all (·.length < lineLimit))
    (by decide +kernel)
  have hconforms := (read_conforming.1 mixedText d hread).1
  have hgroup : ∀ t ∈ d.agent.transitions, t.GroupedAs (t.action :: t.concurrent) :=
    fun t _ => .inl (List.Perm.refl _)
  have hshort : ∀ l ∈ d.lines fun t => t.action :: t.concurrent, l.length < lineLimit := by
    intro l hl
    simpa using List.all_eq_true.mp hshort l hl
  obtain ⟨d', hread', hsame⟩ := read_conforming.2 d _ hconforms hgroup hshort
  exact ⟨d, d', hread, hconforms, hgroup, hshort, hread', hsame⟩

end Description

end Population
