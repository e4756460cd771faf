import Population.Description.Reader
import Population.Proofs.Text.Extent
import Population.Proofs.Text.Separated
import Population.Proofs.Text.Sorting
import Mathlib.Data.List.Forall2
import Mathlib.Tactic.ByContra

/-!
# Descriptions that are accepted

The reader accepts a description only after its cross references have been
checked.  This file collects what every accepted description guarantees: names
are identifiers, states are declared once and on one side only, the reserved
name is free, and every reference leads to a declared state.  Since a line has
a bounded number of bytes, so has the group of actions of a local transition;
this is the only reason why the weights of a global transition fit into a
counter.
-/

namespace Population

namespace Description

/-- What the reader guarantees about a description. -/
structure WellFormed (d : Description) : Prop where
  agentStates_nodup : d.agent.stateNames.Nodup
  environmentStates_nodup : d.environment.states.Nodup
  disjoint : ∀ s ∈ d.environment.states, s ∉ d.agent.stateNames
  reserved_not_agent : reservedName ∉ d.agent.stateNames
  reserved_not_environment : reservedName ∉ d.environment.states
  agentName_valid : ∀ s ∈ d.agent.stateNames, Name.isValid s = true
  environmentName_valid : ∀ s ∈ d.environment.states, Name.isValid s = true
  initial_mem : d.agent.initial ∈ d.agent.stateNames
  leave_mem : d.agent.leave ∈ d.agent.stateNames
  environmentInitial_mem : d.environment.initial ∈ d.environment.states
  local_mem : ∀ t ∈ d.agent.transitions,
    t.before ∈ d.agent.stateNames ∧ t.after ∈ d.agent.stateNames
  environment_mem : ∀ t ∈ d.environment.transitions,
    t.before ∈ d.environment.states ∧ t.after ∈ d.environment.states
  environmentAction_valid : ∀ t ∈ d.environment.transitions,
    Name.isValid t.sync = true ∧ ∀ a ∈ t.agents, Name.isValid a = true
  concurrent_short : ∀ t ∈ d.agent.transitions, t.concurrent.length < lineLimit

/-! ## Computations that may fail -/

theorem exists_of_bind_eq_ok
    {ε α β : Type} {x : Except ε α} {f : α → Except ε β} {b : β}
    (h : (x >>= f) = .ok b) : ∃ a, x = .ok a ∧ f a = .ok b := by
  cases x with
  | error e => simp [bind, Except.bind] at h
  | ok a => exact ⟨a, rfl, h⟩

theorem exists_eq_ok_of_any
    {ε α : Type} {x : Except ε α} {p : α → Bool} (h : x.toOption.any p = true) :
    ∃ a, x = .ok a ∧ p a = true := by
  cases x with
  | error e => simp [Except.toOption] at h
  | ok a => exact ⟨a, rfl, h⟩

/-- A walk over a list succeeds when it does at each element. -/
theorem mapM_eq_ok_iff {ε α β : Type} {f : α → Except ε β} {xs : List α} {ys : List β} :
    xs.mapM f = .ok ys ↔ List.Forall₂ (fun a b => f a = .ok b) xs ys := by
  induction xs generalizing ys with
  | nil =>
      rw [List.mapM_nil, List.forall₂_nil_left_iff]
      exact ⟨fun h => by cases h; rfl, fun h => by rw [h]; rfl⟩
  | cons a rest ih =>
      rw [List.mapM_cons, List.forall₂_cons_left_iff]
      constructor
      · intro h
        obtain ⟨b, hb, h⟩ := exists_of_bind_eq_ok h
        obtain ⟨bs, hbs, h⟩ := exists_of_bind_eq_ok h
        cases h
        exact ⟨b, bs, hb, ih.mp hbs, rfl⟩
      · rintro ⟨b, bs, hb, hbs, rfl⟩
        rw [hb, ih.mpr hbs]
        rfl

theorem forall_mem_of_mapM_eq_ok
    {ε α β : Type} {f : α → Except ε β} {P : β → Prop} {xs : List α} {ys : List β}
    (hf : ∀ a ∈ xs, ∀ b, f a = .ok b → P b) (h : xs.mapM f = .ok ys) :
    ∀ b ∈ ys, P b := by
  induction mapM_eq_ok_iff.mp h with
  | nil => simp
  | cons hab hrest ih =>
      obtain ⟨ha, hothers⟩ := List.forall_mem_cons.mp hf
      exact List.forall_mem_cons.mpr ⟨ha _ hab, ih hothers (mapM_eq_ok_iff.mpr hrest)⟩

theorem forall_mem_of_forM_eq_ok
    {ε α : Type} {f : α → Except ε Unit} {xs : List α} {u : Unit}
    (h : xs.forM f = .ok u) : ∀ a ∈ xs, f a = .ok () := by
  induction xs with
  | nil => simp
  | cons a rest ih =>
      have hcons : (f a >>= fun _ => rest.forM f) = .ok u := h
      obtain ⟨_, ha, h⟩ := exists_of_bind_eq_ok hcons
      intro c hc
      rcases List.mem_cons.mp hc with rfl | hc
      · exact ha
      · exact ih h c hc

/-! ## Lines -/

/-- The line keeps to the limit. -/
def Line.Short (l : Line) : Prop :=
  l.text.length < lineLimit

theorem significantLines_short
    {t : Text} (h : ¬(rawLines t).any (fun l => lineLimit ≤ l.length) = true) :
    ∀ l ∈ significantLines t, l.Short := by
  intro l hl
  simp only [significantLines, List.mem_filterMap, Option.ite_none_right_eq_some,
    Option.some.injEq] at hl
  obtain ⟨⟨raw, number⟩, hmem, -, rfl⟩ := hl
  have hraw : raw ∈ rawLines t := List.fst_mem_of_mem_zipIdx hmem
  have hlimit : raw.length < lineLimit := by
    by_contra hlong
    apply h
    rw [List.any_eq_true]
    exact ⟨raw, hraw, by simpa using hlong⟩
  exact Nat.lt_of_le_of_lt (Text.length_trim_le raw) hlimit

theorem readLine_eq_ok
    {α : Type} {part : Part} {f : Line → Except Malformed α}
    {lines rest : List Line} {a : α} (h : readLine part f lines = .ok (a, rest)) :
    ∃ l, lines = l :: rest ∧ f l = .ok a := by
  cases lines with
  | nil => simp [readLine] at h
  | cons l tail =>
      simp only [readLine] at h
      cases hf : f l with
      | error e => simp [hf, Except.map] at h
      | ok b =>
          simp only [hf, Except.map, Except.ok.injEq, Prod.mk.injEq] at h
          obtain ⟨rfl, rfl⟩ := h
          exact ⟨l, rfl, hf⟩

theorem Line.checkNames_eq_ok
    {l : Line} {part : Part} {names : List Text} {u : Unit}
    (h : l.checkNames part names = .ok u) :
    ∀ n ∈ names, Name.isValid n = true := by
  unfold Line.checkNames at h
  split at h
  next hnone =>
    intro n hn
    simpa using List.find?_eq_none.mp hnone n hn
  next => simp [Line.fail] at h

/-! ## Sections -/

/-- An entry is a name, a colon and a weight that is not negative. -/
theorem readAgentState_eq_ok_iff
    {l : Line} {entry : Text} {s : AgentState} :
    readAgentState l entry = .ok s ↔
      ∃ weight, entry = s.name ++ Text.byte ':' :: weight ∧ Name.isValid s.name = true ∧
        Text.toInt64? weight = some s.weight ∧ 0 ≤ s.weight := by
  constructor
  · intro h
    unfold readAgentState at h
    split at h
    · simp [Line.fail] at h
    next name weight hcut =>
      split at h
      · simp [Line.fail] at h
      next hvalid =>
        split at h
        · simp [Line.fail] at h
        next w hweight =>
          split at h
          · simp [Line.fail] at h
          next hneg =>
            cases h
            exact ⟨weight, (Text.cut_eq_some_iff.mp hcut).2, by simpa using hvalid, hweight,
              Int64.not_lt.mp hneg⟩
  · rintro ⟨weight, rfl, hvalid, hweight, hnonneg⟩
    have hcolon : Text.byte ':' ∉ s.name := fun hmem =>
      absurd (Name.isPart_of_mem hvalid hmem) (by decide)
    have hneg : ¬s.weight < 0 := Int64.not_lt.mpr hnonneg
    simp [readAgentState, Text.cut_append_cons hcolon, hvalid, hweight, hneg]

theorem readAgentStates_valid
    {lines rest : List Line} {states : List AgentState}
    (h : readAgentStates lines = .ok (states, rest)) :
    ∀ s ∈ states, Name.isValid s.name = true := by
  obtain ⟨l, -, h⟩ := readLine_eq_ok h
  simp only at h
  split at h
  · simp [Line.fail] at h
  · refine forall_mem_of_mapM_eq_ok (fun _ _ _ hs => ?_) h
    obtain ⟨_, -, hvalid, -⟩ := readAgentState_eq_ok_iff.mp hs
    exact hvalid

theorem readNameList_valid
    {part : Part} {lines rest : List Line} {names : List Text}
    (h : readNameList part lines = .ok (names, rest)) :
    ∀ n ∈ names, Name.isValid n = true := by
  obtain ⟨l, -, h⟩ := readLine_eq_ok h
  simp only at h
  split at h
  · simp [Line.fail] at h
  · obtain ⟨u, hu, h⟩ := exists_of_bind_eq_ok h
    cases h
    exact Line.checkNames_eq_ok hu

theorem readProtocolMap_rest
    {part : Part} {lines rest : List Line} {entries : List ProtocolEntry}
    (h : readProtocolMap part lines = .ok (entries, rest)) : rest ⊆ lines := by
  induction lines generalizing entries rest with
  | nil =>
      cases h
      exact List.Subset.refl _
  | cons l tail ih =>
      unfold readProtocolMap at h
      split at h
      · cases h
        exact List.Subset.refl _
      · obtain ⟨e, -, h⟩ := exists_of_bind_eq_ok h
        obtain ⟨⟨es, rest'⟩, htail, h⟩ := exists_of_bind_eq_ok h
        cases h
        exact List.subset_cons_of_subset l (ih htail)

theorem readFields_short
    {part : Part} {want : Nat} {l : Line} {fields : List Text} (hl : l.Short)
    (h : readFields part want l = .ok fields) :
    ∀ field ∈ fields, field.length < lineLimit := by
  unfold readFields at h
  split at h
  · simp [Line.fail] at h
  · simp only at h
    split at h
    · simp [Line.fail] at h
    · cases h
      intro field hfield
      obtain ⟨piece, hpiece, rfl⟩ := List.mem_map.mp hfield
      calc
        piece.trim.length ≤ piece.length := Text.length_trim_le piece
        _ ≤ l.text.length := Text.length_le_of_mem_split hpiece
        _ < lineLimit := hl

theorem length_othersOf_le (group : List Text) (action : Text) :
    (othersOf group action).length ≤ group.length := by
  rw [othersOf, (Text.sort_perm _).length_eq]
  exact List.length_erase_le

/-- A line holds the whole group of a local transition. -/
theorem readLocalTransition_short
    {l : Line} {t : LocalTransition} (hl : l.Short)
    (h : readLocalTransition l = .ok t) : t.concurrent.length < lineLimit := by
  obtain ⟨fields, hfields, h⟩ := exists_of_bind_eq_ok h
  have hshort := readFields_short hl hfields
  split at h
  next before sync groupText action after =>
    obtain ⟨u, -, h⟩ := exists_of_bind_eq_ok h
    split at h
    · simp [Line.fail] at h
    · cases h
      calc
        (othersOf groupText.words action).length ≤ groupText.words.length :=
          length_othersOf_le _ _
        _ ≤ groupText.length := Text.length_words_le groupText
        _ < lineLimit := hshort groupText (by simp)
  next => simp [Line.fail] at h

theorem readLocalTransitions_short
    {lines rest : List Line} {ts : List LocalTransition}
    (hlines : ∀ l ∈ lines, l.Short)
    (h : readLocalTransitions lines = .ok (ts, rest)) :
    ∀ t ∈ ts, t.concurrent.length < lineLimit := by
  induction lines generalizing ts rest with
  | nil =>
      cases h
      simp
  | cons l tail ih =>
      unfold readLocalTransitions at h
      split at h
      · obtain ⟨t, ht, h⟩ := exists_of_bind_eq_ok h
        obtain ⟨⟨ts', rest'⟩, htail, h⟩ := exists_of_bind_eq_ok h
        cases h
        have hhead := readLocalTransition_short (hlines l List.mem_cons_self) ht
        have hrest := ih (fun l' hl' => hlines l' (List.mem_cons_of_mem l hl')) htail
        intro t' ht'
        rcases List.mem_cons.mp ht' with rfl | ht'
        · exact hhead
        · exact hrest t' ht'
      · cases h
        simp

theorem readEnvironmentTransition_valid
    {l : Line} {t : EnvironmentTransition} (h : readEnvironmentTransition l = .ok t) :
    Name.isValid t.sync = true ∧ ∀ a ∈ t.agents, Name.isValid a = true := by
  unfold readEnvironmentTransition at h
  split at h
  · simp [Line.fail] at h
  · obtain ⟨fields, -, h⟩ := exists_of_bind_eq_ok h
    split at h
    next before sync agentText after =>
      obtain ⟨u, hu, h⟩ := exists_of_bind_eq_ok h
      cases h
      have hvalid := Line.checkNames_eq_ok hu
      refine ⟨hvalid sync (by simp), ?_⟩
      intro a ha
      exact hvalid a (List.mem_append_right _ ((Text.sort_perm _).mem_iff.mp ha))
    next => simp [Line.fail] at h

/-- What the sections guarantee before any cross reference is checked. -/
structure SectionsRead (d : Description) : Prop where
  agentName_valid : ∀ s ∈ d.agent.stateNames, Name.isValid s = true
  environmentName_valid : ∀ s ∈ d.environment.states, Name.isValid s = true
  environmentAction_valid : ∀ t ∈ d.environment.transitions,
    Name.isValid t.sync = true ∧ ∀ a ∈ t.agents, Name.isValid a = true
  concurrent_short : ∀ t ∈ d.agent.transitions, t.concurrent.length < lineLimit

theorem readSections_eq_ok
    {lines : List Line} {d : Description} {layout : Layout}
    (hlines : ∀ l ∈ lines, l.Short)
    (h : readSections lines = .ok (d, layout)) : SectionsRead d := by
  obtain ⟨⟨states, lines₁⟩, hstates, h⟩ := exists_of_bind_eq_ok h
  obtain ⟨⟨actions, lines₂⟩, hactions, h⟩ := exists_of_bind_eq_ok h
  obtain ⟨⟨protocol, lines₃⟩, hprotocol, h⟩ := exists_of_bind_eq_ok h
  obtain ⟨⟨transitions, lines₄⟩, htransitions, h⟩ := exists_of_bind_eq_ok h
  obtain ⟨⟨initial, lines₅⟩, -, h⟩ := exists_of_bind_eq_ok h
  obtain ⟨⟨leave, lines₆⟩, -, h⟩ := exists_of_bind_eq_ok h
  obtain ⟨⟨envStates, lines₇⟩, henvStates, h⟩ := exists_of_bind_eq_ok h
  obtain ⟨⟨envActions, lines₈⟩, -, h⟩ := exists_of_bind_eq_ok h
  obtain ⟨⟨envProtocol, lines₉⟩, -, h⟩ := exists_of_bind_eq_ok h
  obtain ⟨⟨envInitial, lines₁₀⟩, -, h⟩ := exists_of_bind_eq_ok h
  obtain ⟨envTransitions, henvTransitions, h⟩ := exists_of_bind_eq_ok h
  cases h
  have hshort : ∀ l ∈ lines₃, l.Short := by
    intro l hl
    have hl₂ := readProtocolMap_rest hprotocol hl
    obtain ⟨l₁, rfl, -⟩ := readLine_eq_ok hactions
    obtain ⟨l₀, rfl, -⟩ := readLine_eq_ok hstates
    exact hlines l (List.mem_cons_of_mem l₀ (List.mem_cons_of_mem l₁ hl₂))
  constructor
  · intro s hs
    obtain ⟨st, hst, rfl⟩ := List.mem_map.mp hs
    exact readAgentStates_valid hstates st hst
  · exact readNameList_valid henvStates
  · exact forall_mem_of_mapM_eq_ok (fun _ _ _ ht => readEnvironmentTransition_valid ht)
      henvTransitions
  · exact readLocalTransitions_short hshort htransitions

/-! ## Cross references -/

theorem requireState_eq_ok
    {declared : List Text} {line : Nat} {part : Part} {fault : Text → ReadFault}
    {s : Text} {u : Unit} (h : requireState declared line part fault s = .ok u) :
    s ∈ declared := by
  unfold requireState at h
  split at h
  next hmem => simpa using hmem
  next => simp [refuse] at h

theorem checkAgentStates_eq_ok
    {line : Nat} {seen names : List Text} {u : Unit}
    (h : checkAgentStates line seen names = .ok u) :
    names.Nodup ∧ ∀ s ∈ names, s ∉ seen := by
  induction names generalizing seen with
  | nil => simp
  | cons s rest ih =>
      unfold checkAgentStates at h
      split at h
      · simp [refuse] at h
      next hseen =>
        obtain ⟨hnodup, hfresh⟩ := ih h
        constructor
        · refine List.nodup_cons.mpr ⟨?_, hnodup⟩
          intro hs
          exact hfresh s hs List.mem_cons_self
        · intro s' hs'
          rcases List.mem_cons.mp hs' with rfl | hs'
          · simpa using hseen
          · intro hmem
            exact hfresh s' hs' (List.mem_cons_of_mem s hmem)

theorem checkEnvironmentStates_eq_ok
    {line : Nat} {agentStates seen names : List Text} {u : Unit}
    (h : checkEnvironmentStates line agentStates seen names = .ok u) :
    names.Nodup ∧ (∀ s ∈ names, s ∉ seen) ∧ ∀ s ∈ names, s ∉ agentStates := by
  induction names generalizing seen with
  | nil => simp
  | cons s rest ih =>
      unfold checkEnvironmentStates at h
      split at h
      · simp [refuse] at h
      next hseen =>
        split at h
        · simp [refuse] at h
        next hagent =>
          obtain ⟨hnodup, hfresh, hdisjoint⟩ := ih h
          refine ⟨?_, ?_, ?_⟩
          · refine List.nodup_cons.mpr ⟨?_, hnodup⟩
            intro hs
            exact hfresh s hs List.mem_cons_self
          · intro s' hs'
            rcases List.mem_cons.mp hs' with rfl | hs'
            · simpa using hseen
            · intro hmem
              exact hfresh s' hs' (List.mem_cons_of_mem s hmem)
          · intro s' hs'
            rcases List.mem_cons.mp hs' with rfl | hs'
            · simpa using hagent
            · exact hdisjoint s' hs'

theorem checkReferences_eq_ok
    {d : Description} {layout : Layout} {u : Unit} (hread : SectionsRead d)
    (h : checkReferences d layout = .ok u) : WellFormed d := by
  obtain ⟨_, hagents, h⟩ := exists_of_bind_eq_ok h
  obtain ⟨_, henv, h⟩ := exists_of_bind_eq_ok h
  have hreservedAgent : reservedName ∉ d.agent.stateNames := by
    intro hmem
    simp [hmem, refuse, bind, Except.bind] at h
  have hreservedEnv : reservedName ∉ d.environment.states := by
    intro hmem
    simp [hmem, hreservedAgent, refuse, bind, Except.bind] at h
  simp only [List.contains_iff_mem, hreservedAgent, hreservedEnv, if_false] at h
  obtain ⟨_, hinitial, h⟩ := exists_of_bind_eq_ok h
  obtain ⟨_, hleave, h⟩ := exists_of_bind_eq_ok h
  obtain ⟨_, henvInitial, h⟩ := exists_of_bind_eq_ok h
  obtain ⟨_, -, h⟩ := exists_of_bind_eq_ok h
  obtain ⟨_, -, h⟩ := exists_of_bind_eq_ok h
  obtain ⟨_, hlocal, henvTransitions⟩ := exists_of_bind_eq_ok h
  obtain ⟨hagentsNodup, -⟩ := checkAgentStates_eq_ok hagents
  obtain ⟨henvNodup, -, hdisjoint⟩ := checkEnvironmentStates_eq_ok henv
  exact
    { agentStates_nodup := hagentsNodup
      environmentStates_nodup := henvNodup
      disjoint := hdisjoint
      reserved_not_agent := hreservedAgent
      reserved_not_environment := hreservedEnv
      agentName_valid := hread.agentName_valid
      environmentName_valid := hread.environmentName_valid
      initial_mem := requireState_eq_ok hinitial
      leave_mem := requireState_eq_ok hleave
      environmentInitial_mem := requireState_eq_ok henvInitial
      local_mem := by
        intro t ht
        have hboth := forall_mem_of_forM_eq_ok (forall_mem_of_forM_eq_ok hlocal t ht)
        exact ⟨requireState_eq_ok (hboth t.before (by simp)),
          requireState_eq_ok (hboth t.after (by simp))⟩
      environment_mem := by
        intro t ht
        have hboth :=
          forall_mem_of_forM_eq_ok (forall_mem_of_forM_eq_ok henvTransitions t ht)
        exact ⟨requireState_eq_ok (hboth t.before (by simp)),
          requireState_eq_ok (hboth t.after (by simp))⟩
      environmentAction_valid := hread.environmentAction_valid
      concurrent_short := hread.concurrent_short }

/-- Every description that the reader accepts is well formed. -/
theorem read_wellFormed
    {t : Text} {d : Description} (h : read t = .ok d) : WellFormed d := by
  unfold read at h
  split at h
  · simp at h
  next hlimit =>
    split at h
    next d' hlines =>
      cases h
      obtain ⟨⟨d', layout⟩, hsections, h⟩ := exists_of_bind_eq_ok hlines
      obtain ⟨_, hreferences, h⟩ := exists_of_bind_eq_ok h
      cases h
      have hshort := significantLines_short hlimit
      exact checkReferences_eq_ok (readSections_eq_ok hshort hsections) hreferences
    next => simp at h

end Description

end Population
