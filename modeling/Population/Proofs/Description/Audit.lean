import Population.Description.Audit
import Population.Proofs.Description.WellFormed

/-!
# Undeclared actions in the audit

An action is undeclared when its side of the description does not list it.  The
audit looks for such actions where a transition performs one, where an environment
transition lists its participants, and in the protocol maps.  It does not look at
the other actions in the group of an agent transition.  So a misspelt action that
occurs only there is passed over.
-/

namespace Population

/-! ## What findings say -/

/-- Texts that start with different bytes differ. -/
theorem Text.append_ne_append
    {s t : Text} (h : s.head? ≠ t.head?) (hs : s ≠ []) (ht : t ≠ []) (u v : Text) :
    s ++ u ≠ t ++ v := by
  intro heq
  have hheads := congrArg List.head? heq
  rw [List.head?_append_of_ne_nil _ hs, List.head?_append_of_ne_nil _ ht] at hheads
  exact h hheads

namespace Issue

/-- The finding says that an agent action of this name is not declared. -/
def NamesAgentAction (i : Issue) (x : Text) : Prop :=
  i.kind = "undeclared_action" ∧
    (i.message = Text.cat ["agent action ", x, " is not declared"] ∨
      i.component = "agent_protocol" ∧
        i.message = Text.cat ["protocol of ", i.subject, " names undeclared action ", x])

/-- The finding says that an environment action of this name is not declared. -/
def NamesEnvironmentAction (i : Issue) (x : Text) : Prop :=
  i.kind = "undeclared_action" ∧
    (i.message = Text.cat ["sync action ", x, " is not an environment action"] ∨
      i.message = Text.cat ["environment action ", x, " is not declared"] ∨
      i.component = "environment_protocol" ∧
        i.message = Text.cat ["protocol of ", i.subject, " names undeclared action ", x])

/-- The agent action that the finding calls undeclared. -/
def agentAction? : Issue → Option Text
  | undeclaredOwnAction _ a | undeclaredParticipant _ a | undeclaredInAgentProtocol _ a => some a
  | _ => none

/-- The environment action that the finding calls undeclared. -/
def environmentAction? : Issue → Option Text
  | undeclaredSync _ a | undeclaredEnvironmentAction _ a
  | undeclaredInEnvironmentProtocol _ a => some a
  | _ => none

section Wordings

variable {i : Issue} {x : Text}

/-- The class of a finding tells whether it calls an action undeclared. -/
theorem kind_eq_iff :
    i.kind = "undeclared_action" ↔ i.agentAction? ≠ none ∨ i.environmentAction? ≠ none := by
  have hunused : Text.ofString "unused_action" ≠ Text.ofString "undeclared_action" := by decide
  have hisolated : Text.ofString "isolated_state" ≠ Text.ofString "undeclared_action" := by decide
  have hnone : Text.ofString "no_unsafe_state" ≠ Text.ofString "undeclared_action" := by decide
  cases i <;> simp [kind, agentAction?, environmentAction?, *]

theorem namesAgentAction_iff : i.NamesAgentAction x ↔ i.agentAction? = some x := by
  have hlocal : Text.ofString "agent_transition" ≠ Text.ofString "agent_protocol" := by decide
  have henv : Text.ofString "environment_transition" ≠ Text.ofString "agent_protocol" := by decide
  have hmap : Text.ofString "environment_protocol" ≠ Text.ofString "agent_protocol" := by decide
  have hsyncWord := Text.append_ne_append (s := Text.ofString "sync action ")
    (t := Text.ofString "agent action ") (by decide) (by decide) (by decide)
  have henvWord := Text.append_ne_append (s := Text.ofString "environment action ")
    (t := Text.ofString "agent action ") (by decide) (by decide) (by decide)
  have hmapWord := Text.append_ne_append (s := Text.ofString "protocol of ")
    (t := Text.ofString "agent action ") (by decide) (by decide) (by decide)
  rw [NamesAgentAction, kind_eq_iff]
  cases i <;> simp [component, subject, message, agentAction?, environmentAction?, *]

theorem namesEnvironmentAction_iff :
    i.NamesEnvironmentAction x ↔ i.environmentAction? = some x := by
  have hlocal : Text.ofString "agent_transition" ≠ Text.ofString "environment_protocol" := by decide
  have henv : Text.ofString "environment_transition" ≠ Text.ofString "environment_protocol" := by
    decide
  have hmap : Text.ofString "agent_protocol" ≠ Text.ofString "environment_protocol" := by decide
  have hagentSync := Text.append_ne_append (s := Text.ofString "agent action ")
    (t := Text.ofString "sync action ") (by decide) (by decide) (by decide)
  have hagentEnv := Text.append_ne_append (s := Text.ofString "agent action ")
    (t := Text.ofString "environment action ") (by decide) (by decide) (by decide)
  have hsyncEnv := Text.append_ne_append (s := Text.ofString "sync action ")
    (t := Text.ofString "environment action ") (by decide) (by decide) (by decide)
  have henvSync := Text.append_ne_append (s := Text.ofString "environment action ")
    (t := Text.ofString "sync action ") (by decide) (by decide) (by decide)
  have hmapSync := Text.append_ne_append (s := Text.ofString "protocol of ")
    (t := Text.ofString "sync action ") (by decide) (by decide) (by decide)
  have hmapEnv := Text.append_ne_append (s := Text.ofString "protocol of ")
    (t := Text.ofString "environment action ") (by decide) (by decide) (by decide)
  rw [NamesEnvironmentAction, kind_eq_iff]
  cases i <;> simp [component, subject, message, agentAction?, environmentAction?, *]

end Wordings

end Issue

/-! ## Where the audit looks -/

namespace Description

variable {d : Description} {x : Text}

theorem filterMap_unlessDeclared
    {α : Type} (f : Issue → Option α) (declared : List Text) (a : Text) (i : Issue) :
    (unlessDeclared declared a i).filterMap f =
      if declared.contains a then [] else (f i).toList := by
  unfold unlessDeclared
  split <;> cases h : f i <;> simp [h]

/-- What is left when each element that is not declared is kept. -/
theorem flatMap_unless_declared {α : Type} (declared : List Text) (name : α → Text) (xs : List α) :
    (xs.flatMap fun a => if declared.contains (name a) then [] else [name a]) =
      (xs.map name).filter fun n => !declared.contains n := by
  induction xs with
  | nil => rfl
  | cons a rest ih =>
      rw [List.flatMap_cons, ih, List.map_cons, List.filter_cons]
      cases declared.contains (name a) <;> rfl

section Passes

variable {f : Issue → Option Text} {declared : List Text}

/-- Neither unused actions nor isolated states nor the lack of a forbidden state are
undeclared actions. -/
theorem filterMap_other_passes (h : ∀ i : Issue, i.kind ≠ "undeclared_action" → f i = none) :
    d.auditUnused.filterMap f = [] ∧ d.auditIsolated.filterMap f = [] ∧
      (if d.agent.forbidden.isEmpty then [Issue.noForbiddenState] else []).filterMap f = [] := by
  have hagent (a : Text) : f (.unusedAgentAction a) = none :=
    h _ (by simp only [Issue.kind]; decide)
  have henv (a : Text) : f (.unusedEnvironmentAction a) = none :=
    h _ (by simp only [Issue.kind]; decide)
  have hisolated (s : Text) : f (.isolatedState s) = none :=
    h _ (by simp only [Issue.kind]; decide)
  have hforbidden : f .noForbiddenState = none := h _ (by decide)
  refine ⟨by simp [auditUnused, List.filterMap_map, hagent, henv],
    by simp [auditIsolated, List.filterMap_map, hisolated], ?_⟩
  split <;> simp [hforbidden]

/-- The pass over a protocol map finds its undeclared actions. -/
theorem filterMap_auditProtocol {g : Text → Text → Issue}
    (h : ∀ s a, f (g s a) = some a) (entries : List ProtocolEntry) :
    (auditProtocol declared g entries).filterMap f =
      (entries.flatMap (·.actions)).filter fun a => !declared.contains a := by
  rw [auditProtocol, List.filterMap_flatMap, List.filter_flatMap]
  refine List.flatMap_congr fun e _ => ?_
  rw [List.filterMap_flatMap]
  simpa [filterMap_unlessDeclared, h] using flatMap_unless_declared declared id e.actions

theorem filterMap_auditProtocol_eq_nil {g : Text → Text → Issue}
    (h : ∀ s a, f (g s a) = none) (entries : List ProtocolEntry) :
    (auditProtocol declared g entries).filterMap f = [] := by
  simp [auditProtocol, List.filterMap_flatMap, filterMap_unlessDeclared, h]

end Passes

/-- The agent actions that the audit finds undeclared, in order and with repetition:
those of the transitions and of the protocol map, but not the other actions of a
group. -/
theorem filterMap_agentAction?_audit (d : Description) :
    d.audit.filterMap Issue.agentAction? =
      (d.usedAgentActions ++ d.agent.protocol.flatMap (·.actions)).filter
        fun a => !d.agent.actions.contains a := by
  have hlocal : (d.agent.transitions.flatMap d.auditLocal).filterMap Issue.agentAction? =
      (d.agent.transitions.map (·.action)).filter fun a => !d.agent.actions.contains a := by
    rw [List.filterMap_flatMap, ← flatMap_unless_declared]
    refine List.flatMap_congr fun t _ => ?_
    simp [auditLocal, filterMap_unlessDeclared, Issue.agentAction?]
  have henv : (d.environment.transitions.flatMap d.auditEnvironment).filterMap
      Issue.agentAction? =
        (d.environment.transitions.flatMap (·.agents)).filter
          fun a => !d.agent.actions.contains a := by
    rw [List.filterMap_flatMap, List.filter_flatMap]
    refine List.flatMap_congr fun t _ => ?_
    simpa [auditEnvironment, filterMap_unlessDeclared, Issue.agentAction?, List.filterMap_flatMap]
      using flatMap_unless_declared d.agent.actions id t.agents
  obtain ⟨hunused, hisolated, hforbidden⟩ :=
    filterMap_other_passes (d := d) (f := Issue.agentAction?) fun i hi => by
      rw [ne_eq, Issue.kind_eq_iff, not_or, not_not] at hi
      exact hi.1
  simp only [audit, List.filterMap_append, hlocal, henv, hunused, hisolated, hforbidden,
    filterMap_auditProtocol (f := Issue.agentAction?) (g := .undeclaredInAgentProtocol)
      fun _ _ => rfl,
    filterMap_auditProtocol_eq_nil (f := Issue.agentAction?)
      (g := .undeclaredInEnvironmentProtocol) fun _ _ => rfl,
    usedAgentActions, List.filter_append, List.append_nil]

/-- The environment actions that the audit finds undeclared, in order and with
repetition. -/
theorem filterMap_environmentAction?_audit (d : Description) :
    d.audit.filterMap Issue.environmentAction? =
      (d.usedEnvironmentActions ++ d.environment.protocol.flatMap (·.actions)).filter
        fun a => !d.environment.actions.contains a := by
  have hlocal : (d.agent.transitions.flatMap d.auditLocal).filterMap Issue.environmentAction? =
      (d.agent.transitions.map (·.sync)).filter fun a => !d.environment.actions.contains a := by
    rw [List.filterMap_flatMap, ← flatMap_unless_declared]
    refine List.flatMap_congr fun t _ => ?_
    simp [auditLocal, filterMap_unlessDeclared, Issue.environmentAction?]
  have henv : (d.environment.transitions.flatMap d.auditEnvironment).filterMap
      Issue.environmentAction? =
        (d.environment.transitions.map (·.sync)).filter
          fun a => !d.environment.actions.contains a := by
    rw [List.filterMap_flatMap, ← flatMap_unless_declared]
    refine List.flatMap_congr fun t _ => ?_
    simp [auditEnvironment, filterMap_unlessDeclared, Issue.environmentAction?,
      List.filterMap_flatMap]
  obtain ⟨hunused, hisolated, hforbidden⟩ :=
    filterMap_other_passes (d := d) (f := Issue.environmentAction?) fun i hi => by
      rw [ne_eq, Issue.kind_eq_iff, not_or, not_not, not_not] at hi
      exact hi.2
  simp only [audit, List.filterMap_append, hlocal, henv, hunused, hisolated, hforbidden,
    filterMap_auditProtocol (f := Issue.environmentAction?)
      (g := .undeclaredInEnvironmentProtocol) fun _ _ => rfl,
    filterMap_auditProtocol_eq_nil (f := Issue.environmentAction?)
      (g := .undeclaredInAgentProtocol) fun _ _ => rfl,
    usedEnvironmentActions, List.filter_append, List.append_nil]

theorem exists_namesAgentAction_iff :
    (∃ i ∈ d.audit, i.NamesAgentAction x) ↔
      x ∉ d.agent.actions ∧
        ((∃ t ∈ d.agent.transitions, t.action = x) ∨
          (∃ t ∈ d.environment.transitions, x ∈ t.agents) ∨
          ∃ e ∈ d.agent.protocol, x ∈ e.actions) := by
  simp only [Issue.namesAgentAction_iff, ← List.mem_filterMap, filterMap_agentAction?_audit,
    usedAgentActions, List.mem_filter, List.mem_append, List.mem_map, List.mem_flatMap,
    Bool.not_eq_true', List.contains_eq_mem, decide_eq_false_iff_not, or_assoc]
  exact and_comm

theorem exists_namesEnvironmentAction_iff :
    (∃ i ∈ d.audit, i.NamesEnvironmentAction x) ↔
      x ∉ d.environment.actions ∧
        ((∃ t ∈ d.agent.transitions, t.sync = x) ∨
          (∃ t ∈ d.environment.transitions, t.sync = x) ∨
          ∃ e ∈ d.environment.protocol, x ∈ e.actions) := by
  simp only [Issue.namesEnvironmentAction_iff, ← List.mem_filterMap,
    filterMap_environmentAction?_audit, usedEnvironmentActions, List.mem_filter, List.mem_append,
    List.mem_map, List.mem_flatMap, Bool.not_eq_true', List.contains_eq_mem,
    decide_eq_false_iff_not, or_assoc]
  exact and_comm

/-- The audit reports an undeclared agent action if a transition performs it, an
environment transition lists it or the agent's protocol map names it, and an
undeclared environment action if a transition or the environment's protocol map
names it.  It reports no other undeclared actions, so one that occurs only beside the
own action in groups goes unreported. -/
theorem undeclared_reported_unless_only_grouped (d : Description) :
    (∀ x, (∃ i ∈ d.audit, i.NamesAgentAction x) ↔
      x ∉ d.agent.actions ∧
        ((∃ t ∈ d.agent.transitions, t.action = x) ∨
          (∃ t ∈ d.environment.transitions, x ∈ t.agents) ∨
          ∃ e ∈ d.agent.protocol, x ∈ e.actions)) ∧
      (∀ x, (∃ i ∈ d.audit, i.NamesEnvironmentAction x) ↔
        x ∉ d.environment.actions ∧
          ((∃ t ∈ d.agent.transitions, t.sync = x) ∨
            (∃ t ∈ d.environment.transitions, t.sync = x) ∨
            ∃ e ∈ d.environment.protocol, x ∈ e.actions)) ∧
      ∀ i ∈ d.audit, i.kind = "undeclared_action" →
        ∃ x, i.NamesAgentAction x ∨ i.NamesEnvironmentAction x := by
  refine ⟨fun _ => exists_namesAgentAction_iff, fun _ => exists_namesEnvironmentAction_iff, ?_⟩
  intro i _ hkind
  rcases Issue.kind_eq_iff.mp hkind with h | h
  · obtain ⟨x, hx⟩ := Option.ne_none_iff_exists'.mp h
    exact ⟨x, .inl (Issue.namesAgentAction_iff.mpr hx)⟩
  · obtain ⟨x, hx⟩ := Option.ne_none_iff_exists'.mp h
    exact ⟨x, .inr (Issue.namesEnvironmentAction_iff.mpr hx)⟩

/-- An agent transition whose group names an action that is declared nowhere. -/
def strayGroupText : Text :=
  "idle: 1\ngo\nidle,sync,go halt,go,idle\nidle\nidle\ns0\nsync\ns0\ns0,sync,go,s0\n"

/-- The stray action is a member of a group, and no finding calls any action
undeclared. -/
theorem stray_group_action_unreported :
    ∃ d, read strayGroupText = .ok d ∧
      (∃ t ∈ d.agent.transitions, ∃ x ∈ t.concurrent, x ∉ d.agent.actions) ∧
      ∀ i ∈ d.audit, i.kind ≠ "undeclared_action" := by
  obtain ⟨d, hread, hstray⟩ := exists_eq_ok_of_any
    (x := read strayGroupText)
    (p := fun d => (d.agent.transitions.any fun t =>
        t.concurrent.any fun x => !d.agent.actions.contains x) &&
      d.audit.all fun i => i.kind != "undeclared_action")
    (by decide +kernel)
  refine ⟨d, hread, ?_⟩
  simpa using hstray

end Description

end Population
