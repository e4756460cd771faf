import Population.CommandLine.Machine
import Population.StateSpace.Drawing
import Population.StateSpace.Property

/-!
# Commands on counter systems

Encoding a description, running a counter system, and exploring its states. The system is read from
a file, or encoded from the description in it.
-/

namespace Population.Task

def countsOf (c : Census) : List (Text × Nat) :=
  [("agent_actions", c.agentActions), ("agent_states", c.agentStates),
    ("agent_transitions", c.agentTransitions), ("environment_actions", c.environmentActions),
    ("environment_states", c.environmentStates),
    ("environment_transitions", c.environmentTransitions), ("unsafe_states", c.forbiddenStates)]

def logIssues : List Issue → Task Unit
  | [] => return
  | i :: rest => do
    log .warn i.message [("type", .text i.kind), ("component", .text i.component)]
    logIssues rest

def logUnmatched : List Unmatched → Task Unit
  | [] => return
  | u :: rest => do
    log .warn "unmatched synchronization" [("detail", .text u.text)]
    logUnmatched rest

/-- Reads, composes and encodes the description in a file. -/
def encodeFile (path : Text) : Task Encoding := do
  let t ← readFile path
  let d ← lift (.description path) (Description.read t)
  log .debug "parsed protocol" [("path", .text path), ("analysis", .counts (countsOf d.census))]
  logIssues d.audit
  let s ← settings
  let c := compose d ⟨s.maxConcurrency.toInt, s.deduplicate⟩
  logUnmatched c.unmatched
  let enc ← lift .encoding (encode d c.transitions ⟨s.instanceBound, []⟩)
  log .debug "encoded counter system"
    [("global_transitions", .int c.transitions.length),
      ("guarded_transitions", .int enc.guardedTransitions),
      ("unsafe_configurations", .int enc.hazards.length)]
  return enc

/-- Reads the counter system in a file, or encodes the description in it; the hazards are those of
the description. -/
def loadSystem (path : Text) : Task (CounterSystem × List Hazard) := do
  if (← arguments).isOn "gal" then
    let t ← readFile path
    let sys ← lift (.system path) (CounterSystem.read t)
    return (sys, [])
  else
    let enc ← encodeFile path
    return (enc.system, enc.hazards)

/-- A hazard with the question about it. -/
def hazardText (sys : CounterSystem) (h : Hazard) : Text :=
  Text.cat
    [h.weights.text, " via ", Text.join ", " h.transitions, "\n    ", formula sys h.marking, "\n"]

/-- Prints or writes the counter system of a description, or prints its hazards. -/
def generate (path : Text) : Task Unit := do
  let enc ← encodeFile path
  let a ← arguments
  if a.isOn "unsafe" then print (enc.hazards.map (hazardText enc.system))
  else match a.filled? "output" with
    | none => print [enc.system.text]
    | some out =>
      writeFile .file out enc.system.text
      print
        ["wrote ", out, ": ", Text.ofNat enc.system.counters.length, " counters, ",
          Text.ofNat enc.guardedTransitions, " transitions, ", Text.ofNat enc.hazards.length,
          " unsafe configurations\n"]

/-- How the firings of a run are chosen; a seed of zero is replaced by the time. -/
def choice (seed : UInt64) : Task Choice := do
  if (← arguments).isOn "first" then return .first
  else if seed = 0 then return .random (.ofSeed (.ofInt (← get).machine.clock.now))
  else return .random (.ofSeed seed)

def simulate (path : Text) : Task Unit := do
  let (sys, _) ← loadSystem path
  let a ← arguments
  let s := (← settings).simulation
  let steps := (a.integer? "steps").getD s.steps.toInt
  let seed := ((a.natural? "seed").map UInt64.ofNat).getD s.seed
  let r := Population.simulate .choice sys steps .unlimited (← choice seed) sys.initial
  modify fun d => { d with
    metrics := { d.metrics with simulationSteps := d.metrics.simulationSteps + r.steps } }
  if let some e := r.error then throw (.simulation e)
  print [r.text]
  if r.terminal then print ["terminal after ", Text.ofNat r.steps, " steps\n"]

def terminal : Task (Marking → Bool) := do
  match (← arguments).filled? "terminal" with
  | none => return fun _ => false
  | some t => return (← lift .terminal (Guard.read t)).holds

def propertyText (r : CheckResult) : Text :=
  let mark : Text := if r.satisfied then "ok" else "FAIL"
  Text.cat ["  ", mark.padRight 4, " ", r.property, ": ", r.message, "\n"]

/-- The lines about a state space; `given` is the limit as it was given. -/
def certificateText (c : Certificate) (given : Int) : Text :=
  Text.cat
    ["system ", c.system, ": ", Text.ofNat c.states, " states, ", Text.ofNat c.edges, " edges",
      if c.bounded then [] else Text.cat [" (stopped at ", Text.ofInt given, " states)"], "\n",
      c.properties.flatMap propertyText]

/-- Writes a drawing to the file that a flag names. -/
def draw (flag drawing : Text) : Task Unit := do
  match (← arguments).filled? flag with
  | none => return
  | some path =>
    writeFile .file path drawing
    print ["wrote ", path, "\n"]

def hazardVerdict (h : Hazard) (r : CheckResult) (stop : Option Stop) : Text :=
  let outcome : Text :=
    if stop.isSome then "unknown, state limit reached"
    else if r.satisfied then "REACHABLE via " ++ Text.join " " r.witness
    else "unreachable"
  Text.cat ["unsafe ", h.weights.text, ": ", outcome, "\n"]

/-- Explores a counter system and prints what it finds. -/
def explore (path : Text) : Task Unit := do
  let (sys, hazards) ← loadSystem path
  let given := ((← arguments).integer? "max-states").getD (← settings).oracle.maxStates.toInt
  let limit := stateLimit given
  let term ← terminal
  let (space, _) := StateSpace.build sys limit .unlimited
  print [certificateText (.standard sys term space) given]
  let highlighted (m : Marking) : Bool :=
    hazards.any fun h => (Explicit.pattern h.marking).matches m
  draw "dot" (space.toGraphviz sys.name highlighted)
  draw "mermaid" (space.toMermaid highlighted)
  print (hazards.map fun h =>
    let (r, stop) := reach sys limit .unlimited (Explicit.pattern h.marking).matches
    hazardVerdict h r stop)

end Population.Task
