import Population.Text.Basic

/-!
# Population protocols

A description holds the protocol that every anonymous agent runs and the protocol of the
environment that synchronizes with groups of agents. An agent state carries a weight; weight zero
marks a state that no agent may ever occupy.
-/

namespace Population

/-- The counter of active agents; no state may have its name. -/
def reservedName : Text := "count"

/-- An agent state and its weight. -/
structure AgentState where
  name : Text
  /-- Its declared capacity. -/
  weight : Int64
  deriving DecidableEq

/-- Whether agents may occupy the state. -/
def AgentState.isSafe (s : AgentState) : Bool :=
  s.weight != 0

/-- The actions that a state may attempt. -/
structure ProtocolEntry where
  state : Text
  actions : List Text
  line : Int
  /-- Whether actions are listed at all, be it none; without a list nothing is known of the
  state. -/
  listed : Bool := true
  deriving DecidableEq

/-- An agent step: from `before`, performing `action` while the environment performs `sync` and the
other agents of the group perform `concurrent`, to `after`. -/
structure LocalTransition where
  before : Text
  action : Text
  sync : Text
  /-- The actions of the other agents, with repetition. -/
  concurrent : List Text
  after : Text
  line : Int
  deriving DecidableEq

/-- An environment step: from `before`, performing `sync` together with agents that perform
`agents`, to `after`. -/
structure EnvironmentTransition where
  before : Text
  sync : Text
  /-- The actions of the participating agents, with repetition. -/
  agents : List Text
  after : Text
  line : Int
  deriving DecidableEq

structure Agent where
  states : List AgentState
  actions : List Text
  protocol : List ProtocolEntry
  transitions : List LocalTransition
  initial : Text
  /-- From where an agent may depart. -/
  leave : Text
  deriving DecidableEq

structure Environment where
  states : List Text
  actions : List Text
  protocol : List ProtocolEntry
  initial : Text
  transitions : List EnvironmentTransition
  deriving DecidableEq

/-- A population protocol. -/
structure Description where
  agent : Agent
  environment : Environment
  deriving DecidableEq

/-- The actions that the first entry for a state lists. -/
def enabledIn (entries : List ProtocolEntry) (state : Text) : Option (List Text) :=
  ((entries.find? fun e => e.state == state).filter (·.listed)).map (·.actions)

namespace Agent

def state? (a : Agent) (name : Text) : Option AgentState :=
  a.states.find? fun s => s.name == name

def stateNames (a : Agent) : List Text :=
  a.states.map (·.name)

/-- The states of weight zero. -/
def forbidden (a : Agent) : List Text :=
  (a.states.filter fun s => !s.isSafe).map (·.name)

def enabled (a : Agent) (state : Text) : Option (List Text) :=
  enabledIn a.protocol state

end Agent

namespace Environment

def hasState (e : Environment) (name : Text) : Bool :=
  e.states.contains name

def enabled (e : Environment) (state : Text) : Option (List Text) :=
  enabledIn e.protocol state

end Environment

end Population
