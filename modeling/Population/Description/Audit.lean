import Population.Description.Basic
import Population.Text.Decimal
import Std.Data.TreeMap

/-!
# Auditing a description

Structure that is legal but probably unintended: actions that are used without being declared or
declared without being used, agent states that no transition touches, and a protocol without any
forbidden state. None of it stops an analysis.
-/

namespace Population

/-- A structural finding. -/
inductive Issue where
  | undeclaredOwnAction (line : Int) (action : Text)
  | undeclaredSync (line : Int) (action : Text)
  | undeclaredEnvironmentAction (line : Int) (action : Text)
  | undeclaredParticipant (line : Int) (action : Text)
  | unusedAgentAction (action : Text)
  | unusedEnvironmentAction (action : Text)
  /-- An agent state that is neither initial nor an end of a transition. -/
  | isolatedState (state : Text)
  | undeclaredInAgentProtocol (state action : Text)
  | undeclaredInEnvironmentProtocol (state action : Text)
  | noForbiddenState
  deriving DecidableEq

namespace Issue

def kind : Issue → Text
  | undeclaredOwnAction .. | undeclaredSync .. | undeclaredEnvironmentAction ..
  | undeclaredParticipant .. | undeclaredInAgentProtocol .. | undeclaredInEnvironmentProtocol .. =>
    "undeclared_action"
  | unusedAgentAction _ | unusedEnvironmentAction _ => "unused_action"
  | isolatedState _ => "isolated_state"
  | noForbiddenState => "no_unsafe_state"

/-- The part of the description that the finding is about. -/
def component : Issue → Text
  | undeclaredOwnAction .. | undeclaredSync .. => "agent_transition"
  | undeclaredEnvironmentAction .. | undeclaredParticipant .. => "environment_transition"
  | unusedAgentAction _ | isolatedState _ | noForbiddenState => "agent"
  | unusedEnvironmentAction _ => "environment"
  | undeclaredInAgentProtocol .. => "agent_protocol"
  | undeclaredInEnvironmentProtocol .. => "environment_protocol"

/-- What the finding points at: a line, an action or a state. -/
def subject : Issue → Text
  | undeclaredOwnAction line _ | undeclaredSync line _ | undeclaredEnvironmentAction line _
  | undeclaredParticipant line _ => "line " ++ Text.ofInt line
  | unusedAgentAction a | unusedEnvironmentAction a => a
  | isolatedState s => s
  | undeclaredInAgentProtocol s _ | undeclaredInEnvironmentProtocol s _ => s
  | noForbiddenState => []

def message : Issue → Text
  | undeclaredOwnAction _ a | undeclaredParticipant _ a =>
    Text.cat ["agent action ", a, " is not declared"]
  | undeclaredSync _ a => Text.cat ["sync action ", a, " is not an environment action"]
  | undeclaredEnvironmentAction _ a => Text.cat ["environment action ", a, " is not declared"]
  | unusedAgentAction a => Text.cat ["agent action ", a, " is never used"]
  | unusedEnvironmentAction a => Text.cat ["environment action ", a, " is never used"]
  | isolatedState s => Text.cat ["agent state ", s, " has no transition in or out"]
  | undeclaredInAgentProtocol s a | undeclaredInEnvironmentProtocol s a =>
    Text.cat ["protocol of ", s, " names undeclared action ", a]
  | noForbiddenState => "no agent state has weight 0; every configuration is safe"

end Issue

namespace Description

/-- The issue, unless the action is declared. -/
def unlessDeclared (declared : List Text) (action : Text) (issue : Issue) : List Issue :=
  if declared.contains action then [] else [issue]

def auditLocal (d : Description) (t : LocalTransition) : List Issue :=
  unlessDeclared d.agent.actions t.action (.undeclaredOwnAction t.line t.action) ++
    unlessDeclared d.environment.actions t.sync (.undeclaredSync t.line t.sync)

def auditEnvironment (d : Description) (t : EnvironmentTransition) : List Issue :=
  unlessDeclared d.environment.actions t.sync (.undeclaredEnvironmentAction t.line t.sync) ++
    t.agents.flatMap fun a =>
      unlessDeclared d.agent.actions a (.undeclaredParticipant t.line a)

/-- The agent actions that transitions use, as own action or as participant. -/
def usedAgentActions (d : Description) : List Text :=
  d.agent.transitions.map (·.action) ++ d.environment.transitions.flatMap (·.agents)

def usedEnvironmentActions (d : Description) : List Text :=
  d.agent.transitions.map (·.sync) ++ d.environment.transitions.map (·.sync)

def auditUnused (d : Description) : List Issue :=
  ((d.agent.actions.filter fun a => !d.usedAgentActions.contains a).map .unusedAgentAction) ++
    (d.environment.actions.filter fun a => !d.usedEnvironmentActions.contains a).map
      .unusedEnvironmentAction

/-- The agent states that are initial or an end of a transition. -/
def touchedStates (d : Description) : List Text :=
  d.agent.initial :: d.agent.transitions.flatMap fun t => [t.before, t.after]

def auditIsolated (d : Description) : List Issue :=
  (d.agent.stateNames.filter fun s => !d.touchedStates.contains s).map .isolatedState

def auditProtocol (declared : List Text) (issue : Text → Text → Issue)
    (entries : List ProtocolEntry) : List Issue :=
  entries.flatMap fun e => e.actions.flatMap fun a => unlessDeclared declared a (issue e.state a)

/-- All findings about a description. -/
def audit (d : Description) : List Issue :=
  d.agent.transitions.flatMap d.auditLocal ++ d.environment.transitions.flatMap d.auditEnvironment
    ++ d.auditUnused ++ d.auditIsolated
    ++ auditProtocol d.agent.actions .undeclaredInAgentProtocol d.agent.protocol
    ++ auditProtocol d.environment.actions .undeclaredInEnvironmentProtocol d.environment.protocol
    ++ if d.agent.forbidden.isEmpty then [.noForbiddenState] else []

end Description

structure Census where
  agentStates : Nat
  agentActions : Nat
  agentTransitions : Nat
  environmentStates : Nat
  environmentActions : Nat
  environmentTransitions : Nat
  forbiddenStates : Nat
  deriving DecidableEq

def Description.census (d : Description) : Census where
  agentStates := d.agent.states.length
  agentActions := d.agent.actions.length
  agentTransitions := d.agent.transitions.length
  environmentStates := d.environment.states.length
  environmentActions := d.environment.actions.length
  environmentTransitions := d.environment.transitions.length
  forbiddenStates := d.agent.forbidden.length

/-- Actions by state. -/
abbrev ProtocolMap := Std.TreeMap Text (List Text)

/-- What a job's result restates of its protocol. -/
structure Summary where
  /-- The agent states, each with whether agents may occupy it. -/
  agentStates : List (Text × Bool)
  agentActions : List Text
  agentProtocol : ProtocolMap
  environmentStates : List Text
  environmentActions : List Text
  environmentProtocol : ProtocolMap

/-- The protocol map of a list of entries; of two entries for one state the later counts. -/
def protocolMap (entries : List ProtocolEntry) : ProtocolMap :=
  entries.foldl (fun m e => m.insert e.state e.actions) ∅

def Description.summary (d : Description) : Summary where
  agentStates := d.agent.states.map fun s => (s.name, s.isSafe)
  agentActions := d.agent.actions
  agentProtocol := protocolMap d.agent.protocol
  environmentStates := d.environment.states
  environmentActions := d.environment.actions
  environmentProtocol := protocolMap d.environment.protocol

end Population
