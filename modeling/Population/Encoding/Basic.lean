import Population.Composition.Basic
import Population.CounterSystem.Draft
import Population.Marking

/-!
# Encoding

Agents are anonymous, so a configuration is a marking: how many agents occupy each agent state,
where the environment is, and how many agents are active. Agents join by `spawn` while fewer are
active than the instance bound allows and depart by `leave`; each global transition becomes a
guarded transition. A global transition after which an agent stands in a forbidden state makes its
before side a hazard: one step from it populates that state.

The before side and the after side of a global transition are numbers of tokens by state. A state
keeps the place of its first occurrence and later occurrences add up.
-/

namespace Population

/-- Token counts by state, in order of first occurrence. -/
abbrev Weights := List (Text × Int64)

namespace Weights

def add (state : Text) : Weights → Weights
  | [] => [(state, 1)]
  | (s, n) :: rest => if s = state then (s, n + 1) :: rest else (s, n) :: add state rest

/-- The weights of an environment state and agent states. -/
def of (env : Text) (agents : List Text) : Weights :=
  agents.foldl (fun w s => w.add s) [(env, 1)]

def total (w : Weights) : Int64 :=
  (w.map (·.2)).foldl (· + ·) 0

def marking (w : Weights) : Marking :=
  Marking.ofList w

/-- The weights in order, as `{s0:1, idle:1}`. -/
def text (w : Weights) : Text :=
  Text.cat ["\x7b", Text.join ", " (w.map Marking.entryText), "\x7d"]

end Weights

/-- What a global transition needs. -/
def GlobalTransition.needs (g : GlobalTransition) : Weights :=
  .of g.envBefore g.agentBefore

/-- What a global transition yields. -/
def GlobalTransition.yields (g : GlobalTransition) : Weights :=
  .of g.envAfter g.agentAfter

/-- How to encode. -/
structure EncodingOptions where
  /-- How many agents may be active at once. -/
  bound : Int64
  /-- The name of the system; the default name when empty. -/
  name : Text
  deriving DecidableEq

def defaultSystemName : Text := "generated"

/-- Why a description cannot be encoded. -/
inductive EncodeError where
  | negativeBound (bound : Int64)
  | refused (fault : DeclareFault)
  deriving DecidableEq

def EncodeError.message : EncodeError → Text
  | negativeBound b => "encode: instance bound must not be negative: " ++ Text.ofInt64 b
  | refused f => "encode: " ++ f.message

/-- A before side from which transitions populate a forbidden state. -/
structure Hazard where
  weights : Weights
  transitions : List Text
  deriving DecidableEq

def Hazard.marking (h : Hazard) : Marking :=
  h.weights.marking

/-- The counter system of a description and its hazards. -/
structure Encoding where
  system : CounterSystem
  hazards : List Hazard
  /-- The global transition behind each generated name. -/
  globals : List (Text × GlobalTransition)
  deriving DecidableEq

namespace Encoding

def guardedTransitions (e : Encoding) : Nat :=
  e.system.transitions.length

/-- The counters: agent states, environment states, active agents. -/
def counters (d : Description) : List Counter :=
  d.agent.states.map (fun s => ⟨s.name, 0⟩) ++
    d.environment.states.map (fun s => ⟨s, if s = d.environment.initial then 1 else 0⟩) ++
    [⟨reservedName, 0⟩]

/-- An agent joins in the initial state. -/
def spawn (d : Description) (bound : Int64) : Transition where
  name := "spawn"
  guard := [⟨reservedName, .lt, bound⟩]
  updates := [⟨d.agent.initial, 1⟩, ⟨reservedName, 1⟩]

/-- An agent departs from the leave state. -/
def leave (d : Description) : Transition where
  name := "leave"
  guard := [⟨d.agent.leave, .gt, 0⟩]
  updates := [⟨d.agent.leave, -1⟩, ⟨reservedName, -1⟩]

/-- The name of the `n`-th global transition, counted from one. -/
def globalName (n : Nat) : Text :=
  "t" ++ Text.ofNat n

/-- The guarded transition of a global one: it requires and takes away what is needed, then adds
what is yielded. -/
def guarded (name : Text) (g : GlobalTransition) : Transition where
  name := name
  guard := g.needs.map fun (s, n) => ⟨s, .ge, n⟩
  updates := g.needs.map (fun (s, n) => ⟨s, -n⟩) ++ g.yields.map (fun (s, n) => ⟨s, n⟩)

/-- Whether some agent stands in a forbidden state afterwards. -/
def populatesForbidden (d : Description) (g : GlobalTransition) : Bool :=
  g.agentAfter.any fun s => (d.agent.state? s).any fun st => !st.isSafe

/-- Files a transition under its before side, behind the hazards found so far. -/
def addHazard (name : Text) (needs : Weights) : List Hazard → List Hazard
  | [] => [⟨needs, [name]⟩]
  | h :: rest =>
    if h.marking.key = needs.marking.key then
      { h with transitions := h.transitions ++ [name] } :: rest
    else h :: addHazard name needs rest

def hazardsOf (d : Description) (globals : List (Text × GlobalTransition)) : List Hazard :=
  globals.foldl (fun hs (name, g) =>
    if populatesForbidden d g then addHazard name g.needs hs else hs) []

def nameGlobals (globals : List GlobalTransition) : List (Text × GlobalTransition) :=
  (globals.zipIdx 1).map fun (g, n) => (globalName n, g)

def transitions (d : Description) (bound : Int64) (globals : List (Text × GlobalTransition)) :
    List Transition :=
  spawn d bound :: leave d :: globals.map fun (name, g) => guarded name g

def build (name : Text) (counters : List Counter) (transitions : List Transition) :
    Except DeclareFault Draft := do
  let d ← counters.foldlM (fun d v => d.declare v.name v.initial) (Draft.new name)
  transitions.foldlM (fun d t => d.addTransition t) d

end Encoding

/-- Encodes a description with its global transitions. -/
def encode (d : Description) (globals : List GlobalTransition) (opts : EncodingOptions) :
    Except EncodeError Encoding :=
  if opts.bound < 0 then .error (.negativeBound opts.bound)
  else
    let name := if opts.name.isEmpty then defaultSystemName else opts.name
    let named := Encoding.nameGlobals globals
    match Encoding.build name (Encoding.counters d) (Encoding.transitions d opts.bound named) with
    | .error f => .error (.refused f)
    | .ok draft => .ok ⟨draft.system, Encoding.hazardsOf d named, named⟩

end Population
