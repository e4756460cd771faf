import Population.Proofs.Description.Conforming
import Population.Proofs.Text.Words

/-!
# Writing descriptions

A description is written in its eleven sections, one line after the other.  The
group of an agent transition is written as its own action and the concurrent ones
in any order, or left out when the agent acts alone.  No line is blank, starts
like a comment or has white space at its ends, so the reader meets every line as
it was written.
-/

namespace Population

open Text (byte)

/-! ## The format -/

/-- A list of names; a lone comma stands for the empty list. -/
def Description.listText (names : List Text) : Text :=
  if names.isEmpty then "," else Text.join ", " names

open Description (listText)

/-- The entry `name: weight`. -/
def AgentState.text (s : AgentState) : Text :=
  Text.cat [s.name, ": ", Text.ofInt64 s.weight]

/-- The line `state: actions`. -/
def ProtocolEntry.text (e : ProtocolEntry) : Text :=
  Text.cat [e.state, ": ", listText e.actions]

/-- The line `before,sync,group,action,after`. -/
def LocalTransition.text (t : LocalTransition) (group : List Text) : Text :=
  Text.join [byte ','] [t.before, t.sync, Text.join " " group, t.action, t.after]

/-- The line `before,sync,agents,after`. -/
def EnvironmentTransition.text (t : EnvironmentTransition) : Text :=
  Text.join [byte ','] [t.before, t.sync, Text.join " " t.agents, t.after]

/-- The group names the own action and the concurrent ones, or nothing when there
are no concurrent ones. -/
def LocalTransition.GroupedAs (t : LocalTransition) (group : List Text) : Prop :=
  group.Perm (t.action :: t.concurrent) ∨ group = [] ∧ t.concurrent = []

namespace Description

variable {d : Description} {group : LocalTransition → List Text}

/-- The lines of a description, each transition with a group of its own. -/
def lines (d : Description) (group : LocalTransition → List Text) : List Text :=
  [Text.join ", " (d.agent.states.map (·.text)), listText d.agent.actions] ++
    d.agent.protocol.map (·.text) ++
    d.agent.transitions.map (fun t => t.text (group t)) ++
    [d.agent.initial, d.agent.leave, listText d.environment.states,
      listText d.environment.actions] ++
    d.environment.protocol.map (·.text) ++
    [d.environment.initial] ++
    d.environment.transitions.map (·.text)

/-- The text of a description. -/
def text (d : Description) (group : LocalTransition → List Text) : Text :=
  (d.lines group).flatMap (· ++ [byte '\n'])

/-! ## Lines -/

/-- The bytes of which lines consist. -/
def isPlainByte (b : UInt8) : Bool :=
  Text.isTokenByte b || b == byte ',' || b == byte ' '

/-- Nothing but the bytes of which lines consist. -/
def Plain (t : Text) : Prop :=
  ∀ b ∈ t, isPlainByte b = true

instance (t : Text) : Decidable (Plain t) :=
  List.decidableBAll (fun b => isPlainByte b = true) t

/-- A line that the reader takes as it stands. -/
structure IsLine (t : Text) : Prop where
  ne_nil : t ≠ []
  plain : Plain t
  bare : Text.Bare t

theorem plain_byte {b : UInt8} (h : isPlainByte b = true) :
    b < 0x80 ∧ b ≠ byte '\n' ∧ b ≠ byte '#' :=
  Text.forall_byte
    (P := fun b => isPlainByte b = true → b < 0x80 ∧ b ≠ byte '\n' ∧ b ≠ byte '#')
    (by decide +kernel) b h

theorem Plain.ascii {t : Text} (h : Plain t) : Text.IsAscii t :=
  fun b hb => (plain_byte (h b hb)).1

theorem Plain.append {s t : Text} (hs : Plain s) (ht : Plain t) : Plain (s ++ t) :=
  fun b hb => (List.mem_append.mp hb).elim (hs b) (ht b)

theorem Plain.join {sep : Text} {ts : List Text} (hsep : Plain sep) (hts : ∀ t ∈ ts, Plain t) :
    Plain (Text.join sep ts) := by
  intro b hb
  by_contra hplain
  refine Text.not_mem_join ?_ ?_ hb
  · exact fun hmem => hplain (hsep b hmem)
  · exact fun t ht hmem => hplain (hts t ht b hmem)

theorem plain_of_isToken {t : Text} (h : Text.IsToken t) : Plain t :=
  fun b hb => by simp [isPlainByte, h.inner b hb]

theorem isLine_of_isToken {t : Text} (h : Text.IsToken t) : IsLine t where
  ne_nil := h.ne_nil
  plain := plain_of_isToken h
  bare := by
    apply Text.bare_of_forall
    intro b hb
    obtain ⟨hascii, hblank, -⟩ := Text.token_byte (h.inner b hb)
    exact ⟨hascii, hblank⟩

theorem isLine_of_isValid {name : Text} (h : Name.isValid name = true) : IsLine name :=
  isLine_of_isToken (Text.isToken_of_isValid h)

theorem IsLine.enclose
    {first middle final : Text} (hfirst : IsLine first) (hmiddle : Plain middle)
    (hfinal : IsLine final) : IsLine (first ++ middle ++ final) where
  ne_nil := by simp [hfirst.ne_nil]
  plain := (hfirst.plain.append hmiddle).append hfinal.plain
  bare := hfirst.bare.enclose hfirst.ne_nil hmiddle.ascii hfinal.bare hfinal.ne_nil

theorem isLine_join
    {sep : Text} {ts : List Text} (hsep : Plain sep) (hne : ts ≠ []) (hts : ∀ t ∈ ts, IsLine t) :
    IsLine (Text.join sep ts) := by
  induction ts with
  | nil => exact absurd rfl hne
  | cons t rest ih =>
      obtain ⟨ht, hrest⟩ := List.forall_mem_cons.mp hts
      cases rest with
      | nil => simpa [Text.join] using ht
      | cons u us =>
          rw [Text.join_cons_cons, ← List.append_assoc]
          exact ht.enclose hsep (ih (List.cons_ne_nil u us) hrest)

theorem isLine_listText {names : List Text} (h : ∀ n ∈ names, Name.isValid n = true) :
    IsLine (listText names) := by
  cases names with
  | nil =>
      have hcomma : listText [] = [byte ','] := by decide
      have hbare : Text.Bare [byte ','] :=
        Text.bare_of_forall (List.forall_mem_singleton.mpr (by decide))
      rw [hcomma]
      exact ⟨by decide, by decide, hbare⟩
  | cons n rest =>
      exact isLine_join (by decide) (List.cons_ne_nil n rest) fun m hm => isLine_of_isValid (h m hm)

theorem isLine_agentState {s : AgentState} (h : Name.isValid s.name = true) : IsLine s.text := by
  have hline : IsLine (s.name ++ ": " ++ Text.ofInt64 s.weight) :=
    (isLine_of_isValid h).enclose (by decide) (isLine_of_isToken (Text.isToken_ofInt64 s.weight))
  simpa [AgentState.text] using hline

theorem isLine_protocolEntry {e : ProtocolEntry} (h : ∀ n ∈ e.names, Name.isValid n = true) :
    IsLine e.text := by
  obtain ⟨hstate, hactions⟩ := List.forall_mem_cons.mp h
  have hline : IsLine (e.state ++ ": " ++ listText e.actions) :=
    (isLine_of_isValid hstate).enclose (by decide) (isLine_listText hactions)
  simpa [ProtocolEntry.text] using hline

theorem isLine_fields
    {first final : Text} (inner : List Text) (hfirst : Name.isValid first = true)
    (hfinal : Name.isValid final = true) (hinner : ∀ t ∈ inner, Plain t) :
    IsLine (Text.join [byte ','] (first :: inner ++ [final])) := by
  have hmiddle : Plain (inner.flatMap ([byte ','] ++ ·) ++ [byte ',']) := by
    refine Plain.append ?_ (by decide)
    intro b hb
    obtain ⟨t, ht, hb⟩ := List.mem_flatMap.mp hb
    exact Plain.append (by decide) (hinner t ht) b hb
  have hline := (isLine_of_isValid hfirst).enclose hmiddle (isLine_of_isValid hfinal)
  simpa [Text.join] using hline

theorem plain_group {names : List Text} (h : ∀ n ∈ names, Name.isValid n = true) :
    Plain (Text.join " " names) :=
  Plain.join (by decide) fun n hn => (isLine_of_isValid (h n hn)).plain

theorem mem_names_of_groupedAs
    {t : LocalTransition} {names : List Text} (h : t.GroupedAs names) {n : Text} (hn : n ∈ names) :
    n ∈ t.names := by
  rcases h with hperm | ⟨rfl, -⟩
  · rcases List.mem_cons.mp (hperm.mem_iff.mp hn) with rfl | hmem
    · simp [LocalTransition.names]
    · exact List.mem_append_right _ hmem
  · simp at hn

theorem isLine_localTransition
    {t : LocalTransition} {names : List Text} (h : ∀ n ∈ t.names, Name.isValid n = true)
    (hgroup : t.GroupedAs names) : IsLine (t.text names) := by
  have hgroupPlain := plain_group fun n hn => h n (mem_names_of_groupedAs hgroup hn)
  simp only [LocalTransition.names, List.forall_mem_append, List.forall_mem_cons] at h
  obtain ⟨⟨hbefore, hsync, haction, hafter, -⟩, -⟩ := h
  refine isLine_fields [t.sync, Text.join " " names, t.action] hbefore hafter ?_
  simp only [List.forall_mem_cons, List.not_mem_nil, false_implies, implies_true, and_true]
  exact ⟨(isLine_of_isValid hsync).plain, hgroupPlain, (isLine_of_isValid haction).plain⟩

theorem isLine_environmentTransition
    {t : EnvironmentTransition} (h : ∀ n ∈ t.names, Name.isValid n = true) : IsLine t.text := by
  simp only [EnvironmentTransition.names, List.forall_mem_append, List.forall_mem_cons] at h
  obtain ⟨⟨hbefore, hsync, hafter, -⟩, hagents⟩ := h
  refine isLine_fields [t.sync, Text.join " " t.agents] hbefore hafter ?_
  simp only [List.forall_mem_cons, List.not_mem_nil, false_implies, implies_true, and_true]
  exact ⟨(isLine_of_isValid hsync).plain, plain_group hagents⟩

/-- Every line of a description is one that the reader takes as it stands. -/
theorem isLine_of_mem_lines
    (h : d.Conforms) (hgroup : ∀ t ∈ d.agent.transitions, t.GroupedAs (group t)) :
    ∀ l ∈ d.lines group, IsLine l := by
  obtain ⟨hstates, hactions, hprotocol, htransitions, hinitial, hleave, henvStates, henvActions,
    henvProtocol, henvInitial, henvTransitions⟩ := forall_mem_names.mp h.names_valid
  have hstatesLine : IsLine (Text.join ", " (d.agent.states.map (·.text))) :=
    isLine_join (by decide) (by simpa using h.states_ne_nil)
      (List.forall_mem_map.mpr fun s hs => isLine_agentState (hstates s hs))
  simp only [lines, List.forall_mem_append, List.forall_mem_cons, List.forall_mem_map,
    List.not_mem_nil, false_implies, implies_true, and_true, and_assoc]
  exact ⟨hstatesLine, isLine_listText hactions, fun e he => isLine_protocolEntry (hprotocol e he),
    fun t ht => isLine_localTransition (htransitions t ht) (hgroup t ht),
    isLine_of_isValid hinitial, isLine_of_isValid hleave, isLine_listText henvStates,
    isLine_listText henvActions, fun e he => isLine_protocolEntry (henvProtocol e he),
    isLine_of_isValid henvInitial,
    fun t ht => isLine_environmentTransition (henvTransitions t ht)⟩

/-! ## Texts -/

theorem split_flatMap_append
    {sep : UInt8} {ls : List Text} (h : ∀ l ∈ ls, sep ∉ l) (t : Text) :
    Text.split sep (ls.flatMap (· ++ [sep]) ++ t) = ls ++ Text.split sep t := by
  induction ls with
  | nil => rfl
  | cons l rest ih =>
      obtain ⟨hl, hrest⟩ := List.forall_mem_cons.mp h
      rw [List.flatMap_cons, List.append_assoc, List.append_assoc, List.singleton_append,
        Text.split_append_cons hl, ih hrest, List.cons_append]

theorem split_flatMap_terminated
    {sep : UInt8} {ls : List Text} (h : ∀ l ∈ ls, sep ∉ l) :
    Text.split sep (ls.flatMap (· ++ [sep])) = ls ++ [[]] := by
  have hsplit := split_flatMap_append h []
  rwa [List.append_nil, Text.split_nil] at hsplit

theorem rawLines_terminated {ls : List Text} (h : ∀ l ∈ ls, byte '\n' ∉ l) :
    rawLines (ls.flatMap (· ++ [byte '\n'])) = ls := by
  simp [rawLines, split_flatMap_terminated h]

/-- The reader finds the lines again. -/
theorem significantLines_terminated {ls : List Text} (h : ∀ l ∈ ls, IsLine l) :
    (significantLines (ls.flatMap (· ++ [byte '\n']))).map (·.text) = ls := by
  have hunbroken : ∀ l ∈ ls, byte '\n' ∉ l :=
    fun l hl hmem => (plain_byte ((h l hl).plain _ hmem)).2.1 rfl
  have hkept : ∀ l ∈ ls, l.trim = l ∧ isSignificant l = true := by
    intro l hl
    have hline := h l hl
    refine ⟨Text.trim_bare hline.bare, ?_⟩
    obtain ⟨b, rest, rfl⟩ := List.exists_cons_of_ne_nil hline.ne_nil
    have hmark : b ≠ byte '#' := (plain_byte (hline.plain b List.mem_cons_self)).2.2
    simp [isSignificant, hmark]
  rw [significantLines, rawLines_terminated hunbroken]
  clear hunbroken h
  generalize 1 = k
  induction ls generalizing k with
  | nil => rfl
  | cons l rest ih =>
      obtain ⟨⟨htrim, hcounts⟩, hrest⟩ := List.forall_mem_cons.mp hkept
      rw [List.zipIdx_cons, List.filterMap_cons]
      simp only [htrim, hcounts, if_true, List.map_cons, ih hrest]

end Description

end Population
