import Population.Proofs.Description.WellFormed

/-!
# Conforming descriptions

A description conforms to the format when its names are identifiers, its weights
are not negative, its lists of actions are sorted, and its states are declared
once, on one side, and before they are used.  The sections of an accepted text
guarantee the first half, and the cross references are checked for exactly the
second half.
-/

namespace Population

/-! ## Names and references -/

/-- The names in a protocol entry. -/
def ProtocolEntry.names (e : ProtocolEntry) : List Text :=
  e.state :: e.actions

/-- The names in an agent transition. -/
def LocalTransition.names (t : LocalTransition) : List Text :=
  [t.before, t.sync, t.action, t.after] ++ t.concurrent

/-- The names in an environment transition. -/
def EnvironmentTransition.names (t : EnvironmentTransition) : List Text :=
  [t.before, t.sync, t.after] ++ t.agents

namespace Agent

/-- All names in an agent protocol. -/
def names (a : Agent) : List Text :=
  a.stateNames ++ a.actions ++ a.protocol.flatMap (·.names) ++ a.transitions.flatMap (·.names) ++
    [a.initial, a.leave]

/-- The states that an agent protocol refers to. -/
def references (a : Agent) : List Text :=
  [a.initial, a.leave] ++ a.protocol.map (·.state) ++
    a.transitions.flatMap fun t => [t.before, t.after]

end Agent

namespace Environment

/-- All names in an environment protocol. -/
def names (e : Environment) : List Text :=
  e.states ++ e.actions ++ e.protocol.flatMap (·.names) ++ [e.initial] ++
    e.transitions.flatMap (·.names)

/-- The states that an environment protocol refers to. -/
def references (e : Environment) : List Text :=
  [e.initial] ++ e.protocol.map (·.state) ++ e.transitions.flatMap fun t => [t.before, t.after]

end Environment

namespace Description

/-- All names in a description. -/
def names (d : Description) : List Text :=
  d.agent.names ++ d.environment.names

/-- Section by section. -/
theorem forall_mem_names {d : Description} {P : Text → Prop} :
    (∀ n ∈ d.names, P n) ↔
      (∀ s ∈ d.agent.states, P s.name) ∧ (∀ n ∈ d.agent.actions, P n) ∧
        (∀ e ∈ d.agent.protocol, ∀ n ∈ e.names, P n) ∧
        (∀ t ∈ d.agent.transitions, ∀ n ∈ t.names, P n) ∧
        P d.agent.initial ∧ P d.agent.leave ∧
        (∀ n ∈ d.environment.states, P n) ∧ (∀ n ∈ d.environment.actions, P n) ∧
        (∀ e ∈ d.environment.protocol, ∀ n ∈ e.names, P n) ∧
        P d.environment.initial ∧ ∀ t ∈ d.environment.transitions, ∀ n ∈ t.names, P n := by
  simp only [names, Agent.names, Environment.names, Agent.stateNames, List.forall_mem_append,
    List.forall_mem_map, List.forall_mem_flatMap, List.forall_mem_cons, List.not_mem_nil,
    false_implies, implies_true, and_true, and_assoc]

/-- What is written section by section: identifiers, weights and sorted lists. -/
structure Lexical (d : Description) : Prop where
  names_valid : ∀ n ∈ d.names, Name.isValid n = true
  weight_nonneg : ∀ s ∈ d.agent.states, 0 ≤ s.weight
  concurrent_sorted : ∀ t ∈ d.agent.transitions, Text.Ascending t.concurrent
  agents_sorted : ∀ t ∈ d.environment.transitions, Text.Ascending t.agents

/-- What connects the sections: states are declared once, on one side only, not
under the reserved name, and whatever is referred to is declared. -/
structure Linked (d : Description) : Prop where
  agentStates_nodup : d.agent.stateNames.Nodup
  environmentStates_nodup : d.environment.states.Nodup
  disjoint : ∀ s ∈ d.environment.states, s ∉ d.agent.stateNames
  reserved_not_agent : reservedName ∉ d.agent.stateNames
  reserved_not_environment : reservedName ∉ d.environment.states
  agent_declared : ∀ s ∈ d.agent.references, s ∈ d.agent.stateNames
  environment_declared : ∀ s ∈ d.environment.references, s ∈ d.environment.states

/-- What the format asks of a description. -/
structure Conforms (d : Description) : Prop extends Lexical d, Linked d

theorem Linked.states_ne_nil {d : Description} (h : d.Linked) : d.agent.states ≠ [] := by
  have hdeclared := h.agent_declared d.agent.initial (by simp [Agent.references])
  intro hnil
  simp [Agent.stateNames, hnil] at hdeclared

/-! ## Sections -/

theorem readAgentStates_weight
    {lines rest : List Line} {states : List AgentState}
    (h : readAgentStates lines = .ok (states, rest)) : ∀ s ∈ states, 0 ≤ s.weight := by
  obtain ⟨l, -, h⟩ := readLine_eq_ok h
  simp only at h
  split at h
  · simp [Line.fail] at h
  · refine forall_mem_of_mapM_eq_ok (fun _ _ _ hs => ?_) h
    obtain ⟨_, -, -, -, hweight⟩ := readAgentState_eq_ok_iff.mp hs
    exact hweight

theorem readSingleName_valid
    {part : Part} {lines rest : List Line} {name : Text}
    (h : readSingleName part lines = .ok (name, rest)) : Name.isValid name = true := by
  obtain ⟨l, -, h⟩ := readLine_eq_ok h
  split at h
  next hvalid =>
    cases h
    exact hvalid
  next => simp [Line.fail] at h

theorem readProtocolEntry_valid
    {part : Part} {l : Line} {left right : Text} {e : ProtocolEntry}
    (h : readProtocolEntry part l left right = .ok e) :
    (∀ n ∈ e.names, Name.isValid n = true) ∧ e.listed = true := by
  unfold readProtocolEntry at h
  simp only at h
  split at h
  · simp [Line.fail] at h
  next hstate =>
    split at h
    · simp [Line.fail] at h
    · obtain ⟨u, hu, h⟩ := exists_of_bind_eq_ok h
      cases h
      refine ⟨List.forall_mem_cons.mpr ⟨by simpa using hstate, ?_⟩, rfl⟩
      exact Line.checkNames_eq_ok hu

theorem readProtocolMap_valid
    {part : Part} {lines rest : List Line} {entries : List ProtocolEntry}
    (h : readProtocolMap part lines = .ok (entries, rest)) :
    ∀ e ∈ entries, (∀ n ∈ e.names, Name.isValid n = true) ∧ e.listed = true := by
  induction lines generalizing entries rest with
  | nil =>
      cases h
      simp
  | cons l tail ih =>
      unfold readProtocolMap at h
      split at h
      · cases h
        simp
      · obtain ⟨e, he, h⟩ := exists_of_bind_eq_ok h
        obtain ⟨⟨es, rest'⟩, htail, h⟩ := exists_of_bind_eq_ok h
        cases h
        exact List.forall_mem_cons.mpr ⟨readProtocolEntry_valid he, ih htail⟩

theorem mem_of_mem_othersOf {group : List Text} {action n : Text} (h : n ∈ othersOf group action) :
    n ∈ group :=
  List.mem_of_mem_erase ((Text.sort_perm _).mem_iff.mp h)

theorem readLocalTransition_valid
    {l : Line} {t : LocalTransition} (h : readLocalTransition l = .ok t) :
    (∀ n ∈ t.names, Name.isValid n = true) ∧ Text.Ascending t.concurrent := by
  obtain ⟨fields, -, h⟩ := exists_of_bind_eq_ok h
  split at h
  next before sync groupText action after =>
    obtain ⟨u, hu, h⟩ := exists_of_bind_eq_ok h
    have hvalid := Line.checkNames_eq_ok hu
    split at h
    · simp [Line.fail] at h
    · cases h
      refine ⟨?_, Text.sort_ascending _⟩
      intro n hn
      rcases List.mem_append.mp hn with hn | hn
      · exact hvalid n (List.mem_append_left _ hn)
      · exact hvalid n (List.mem_append_right _ (mem_of_mem_othersOf hn))
  next => simp [Line.fail] at h

theorem readLocalTransitions_valid
    {lines rest : List Line} {ts : List LocalTransition}
    (h : readLocalTransitions lines = .ok (ts, rest)) :
    ∀ t ∈ ts, (∀ n ∈ t.names, Name.isValid n = true) ∧ Text.Ascending t.concurrent := by
  induction lines generalizing ts rest with
  | nil =>
      cases h
      simp
  | cons l tail ih =>
      unfold readLocalTransitions at h
      split at h
      · obtain ⟨t, ht, h⟩ := exists_of_bind_eq_ok h
        obtain ⟨⟨ts', rest'⟩, htail, h⟩ := exists_of_bind_eq_ok h
        cases h
        exact List.forall_mem_cons.mpr ⟨readLocalTransition_valid ht, ih htail⟩
      · cases h
        simp

theorem readEnvironmentTransition_sorted
    {l : Line} {t : EnvironmentTransition} (h : readEnvironmentTransition l = .ok t) :
    (∀ n ∈ t.names, Name.isValid n = true) ∧ Text.Ascending t.agents := by
  unfold readEnvironmentTransition at h
  split at h
  · simp [Line.fail] at h
  · obtain ⟨fields, -, h⟩ := exists_of_bind_eq_ok h
    split at h
    next before sync agentText after =>
      obtain ⟨u, hu, h⟩ := exists_of_bind_eq_ok h
      cases h
      have hvalid := Line.checkNames_eq_ok hu
      refine ⟨?_, Text.sort_ascending _⟩
      intro n hn
      rcases List.mem_append.mp hn with hn | hn
      · exact hvalid n (List.mem_append_left _ hn)
      · exact hvalid n (List.mem_append_right _ ((Text.sort_perm _).mem_iff.mp hn))
    next => simp [Line.fail] at h

/-- The sections of a description hold identifiers, weights and sorted lists, and
every protocol entry lists actions. -/
theorem readSections_lexical
    {lines : List Line} {d : Description} {layout : Layout}
    (h : readSections lines = .ok (d, layout)) :
    Lexical d ∧ ∀ e ∈ d.agent.protocol ++ d.environment.protocol, e.listed = true := by
  obtain ⟨⟨states, lines₁⟩, hstates, h⟩ := exists_of_bind_eq_ok h
  obtain ⟨⟨actions, lines₂⟩, hactions, h⟩ := exists_of_bind_eq_ok h
  obtain ⟨⟨protocol, lines₃⟩, hprotocol, h⟩ := exists_of_bind_eq_ok h
  obtain ⟨⟨transitions, lines₄⟩, htransitions, h⟩ := exists_of_bind_eq_ok h
  obtain ⟨⟨initial, lines₅⟩, hinitial, h⟩ := exists_of_bind_eq_ok h
  obtain ⟨⟨leave, lines₆⟩, hleave, h⟩ := exists_of_bind_eq_ok h
  obtain ⟨⟨envStates, lines₇⟩, henvStates, h⟩ := exists_of_bind_eq_ok h
  obtain ⟨⟨envActions, lines₈⟩, henvActions, h⟩ := exists_of_bind_eq_ok h
  obtain ⟨⟨envProtocol, lines₉⟩, henvProtocol, h⟩ := exists_of_bind_eq_ok h
  obtain ⟨⟨envInitial, lines₁₀⟩, henvInitial, h⟩ := exists_of_bind_eq_ok h
  obtain ⟨envTransitions, henvTransitions, h⟩ := exists_of_bind_eq_ok h
  cases h
  have hmap := readProtocolMap_valid hprotocol
  have henvMap := readProtocolMap_valid henvProtocol
  have hlocal := readLocalTransitions_valid htransitions
  have henvLocal :=
    forall_mem_of_mapM_eq_ok (fun _ _ _ ht => readEnvironmentTransition_sorted ht) henvTransitions
  refine ⟨⟨?_, readAgentStates_weight hstates, fun t ht => (hlocal t ht).2,
    fun t ht => (henvLocal t ht).2⟩, ?_⟩
  · exact forall_mem_names.mpr ⟨readAgentStates_valid hstates, readNameList_valid hactions,
      fun e he => (hmap e he).1, fun t ht => (hlocal t ht).1, readSingleName_valid hinitial,
      readSingleName_valid hleave, readNameList_valid henvStates, readNameList_valid henvActions,
      fun e he => (henvMap e he).1, readSingleName_valid henvInitial,
      fun t ht => (henvLocal t ht).1⟩
  · intro e he
    rcases List.mem_append.mp he with he | he
    · exact (hmap e he).2
    · exact (henvMap e he).2

/-! ## Cross references -/

theorem requireState_eq_ok_iff
    {declared : List Text} {line : Nat} {part : Part} {fault : Text → ReadFault} {s : Text} :
    requireState declared line part fault s = .ok () ↔ s ∈ declared := by
  refine ⟨requireState_eq_ok, ?_⟩
  intro h
  simp [requireState, h]

theorem forM_eq_ok_iff {ε α : Type} {f : α → Except ε Unit} {xs : List α} :
    xs.forM f = .ok () ↔ ∀ a ∈ xs, f a = .ok () := by
  refine ⟨forall_mem_of_forM_eq_ok, ?_⟩
  intro h
  induction xs with
  | nil => rfl
  | cons a rest ih =>
      obtain ⟨ha, hrest⟩ := List.forall_mem_cons.mp h
      have hcons : (a :: rest).forM f = (f a >>= fun _ => rest.forM f) := rfl
      rw [hcons, ha]
      exact ih hrest

theorem seq_eq_ok_iff {ε : Type} {x y : Except ε Unit} :
    (x >>= fun _ => y) = .ok () ↔ x = .ok () ∧ y = .ok () := by
  cases x with
  | error e => simp [bind, Except.bind]
  | ok u => simp [bind, Except.bind]

theorem guard_eq_ok_iff
    {c : Bool} {line : Nat} {part : Part} {fault : ReadFault} {y : Except Malformed Unit} :
    (if c = true then refuse line part fault >>= fun _ => y else y) = .ok () ↔
      c = false ∧ y = .ok () := by
  cases c with
  | true => simp [refuse, bind, Except.bind]
  | false => simp

theorem checkAgentStates_of_nodup
    {line : Nat} {seen names : List Text} (hnodup : names.Nodup)
    (hfresh : ∀ s ∈ names, s ∉ seen) : checkAgentStates line seen names = .ok () := by
  induction names generalizing seen with
  | nil => rfl
  | cons s rest ih =>
      obtain ⟨hs, hrest⟩ := List.nodup_cons.mp hnodup
      have hnew : seen.contains s = false := by
        simpa using hfresh s List.mem_cons_self
      rw [checkAgentStates, hnew, if_neg Bool.false_ne_true]
      refine ih hrest ?_
      intro s' hs' hmem
      rcases List.mem_cons.mp hmem with rfl | hmem
      · exact hs hs'
      · exact hfresh s' (List.mem_cons_of_mem s hs') hmem

theorem checkEnvironmentStates_of_nodup
    {line : Nat} {agentStates seen names : List Text} (hnodup : names.Nodup)
    (hfresh : ∀ s ∈ names, s ∉ seen) (hdisjoint : ∀ s ∈ names, s ∉ agentStates) :
    checkEnvironmentStates line agentStates seen names = .ok () := by
  induction names generalizing seen with
  | nil => rfl
  | cons s rest ih =>
      obtain ⟨hs, hrest⟩ := List.nodup_cons.mp hnodup
      have hnew : seen.contains s = false := by
        simpa using hfresh s List.mem_cons_self
      have hagent : agentStates.contains s = false := by
        simpa using hdisjoint s List.mem_cons_self
      rw [checkEnvironmentStates, hnew, hagent, if_neg Bool.false_ne_true,
        if_neg Bool.false_ne_true]
      refine ih hrest ?_ fun s' hs' => hdisjoint s' (List.mem_cons_of_mem s hs')
      intro s' hs' hmem
      rcases List.mem_cons.mp hmem with rfl | hmem
      · exact hs hs'
      · exact hfresh s' (List.mem_cons_of_mem s hs') hmem

/-- The cross references are accepted exactly if the sections are connected. -/
theorem checkReferences_eq_ok_iff {d : Description} {layout : Layout} :
    checkReferences d layout = .ok () ↔ d.Linked := by
  simp only [checkReferences, seq_eq_ok_iff, guard_eq_ok_iff, forM_eq_ok_iff,
    requireState_eq_ok_iff]
  constructor
  · rintro ⟨hagents, henv, hagent, henvironment, hinitial, hleave, henvInitial, hprotocol,
      henvProtocol, hlocal, henvLocal⟩
    obtain ⟨hagentsNodup, -⟩ := checkAgentStates_eq_ok hagents
    obtain ⟨henvNodup, -, hdisjoint⟩ := checkEnvironmentStates_eq_ok henv
    refine ⟨hagentsNodup, henvNodup, hdisjoint, by simpa using hagent,
      by simpa using henvironment, ?_, ?_⟩
    · simp only [Agent.references, List.forall_mem_append, List.forall_mem_map,
        List.forall_mem_flatMap]
      exact ⟨⟨by simp [hinitial, hleave], hprotocol⟩, hlocal⟩
    · simp only [Environment.references, List.forall_mem_append, List.forall_mem_map,
        List.forall_mem_flatMap]
      exact ⟨⟨by simp [henvInitial], henvProtocol⟩, henvLocal⟩
  · rintro ⟨hagents, henv, hdisjoint, hagent, henvironment, hreferences, henvReferences⟩
    simp only [Agent.references, List.forall_mem_append, List.forall_mem_map,
      List.forall_mem_flatMap, List.forall_mem_cons] at hreferences
    simp only [Environment.references, List.forall_mem_append, List.forall_mem_map,
      List.forall_mem_flatMap, List.forall_mem_cons] at henvReferences
    obtain ⟨⟨⟨hinitial, hleave, -⟩, hprotocol⟩, hlocal⟩ := hreferences
    obtain ⟨⟨⟨henvInitial, -⟩, henvProtocol⟩, henvLocal⟩ := henvReferences
    refine ⟨checkAgentStates_of_nodup hagents (by simp),
      checkEnvironmentStates_of_nodup henv (by simp) hdisjoint, by simpa using hagent,
      by simpa using henvironment, hinitial, hleave, henvInitial, hprotocol, henvProtocol, ?_, ?_⟩
    · simpa using hlocal
    · simpa using henvLocal

/-- Every description that the reader accepts conforms to the format, and each of
its protocol entries lists actions. -/
theorem read_conforms {t : Text} {d : Description} (h : read t = .ok d) :
    d.Conforms ∧ ∀ e ∈ d.agent.protocol ++ d.environment.protocol, e.listed = true := by
  unfold read at h
  split at h
  · simp at h
  · split at h
    next d' hlines =>
      cases h
      obtain ⟨⟨d', layout⟩, hsections, h⟩ := exists_of_bind_eq_ok hlines
      obtain ⟨_, hreferences, h⟩ := exists_of_bind_eq_ok h
      cases h
      obtain ⟨hlexical, hlisted⟩ := readSections_lexical hsections
      exact ⟨⟨hlexical, checkReferences_eq_ok_iff.mp hreferences⟩, hlisted⟩
    next => simp at h

end Description

end Population
