import Population.Description.Basic
import Population.Text.Decimal
import Population.Text.Quoted
import Population.Text.Word

/-!
# Reading descriptions

A description is written in eleven sections of fixed order, one line each or any number of lines.
Blank lines and lines that start with `#` are skipped. A protocol map entry is recognized by its
colon and a transition by its commas; after the last section the cross references are checked.
-/

namespace Population.Description

open Text (byte)

/-- The sections of a description. -/
inductive Part where
  | agentStates
  | agentActions
  | agentProtocol
  | agentTransitions
  | agentInitial
  | agentLeave
  | environmentStates
  | environmentActions
  | environmentProtocol
  | environmentInitial
  | environmentTransitions
  deriving DecidableEq

def Part.title : Part → Text
  | agentStates => "agent states"
  | agentActions => "agent actions"
  | agentProtocol => "agent protocol"
  | agentTransitions => "agent transitions"
  | agentInitial => "agent initial state"
  | agentLeave => "agent leave state"
  | environmentStates => "environment states"
  | environmentActions => "environment actions"
  | environmentProtocol => "environment protocol"
  | environmentInitial => "environment initial state"
  | environmentTransitions => "environment transitions"

/-- What is wrong with a section. -/
inductive ReadFault where
  | endOfInput
  | noEntries
  | noWeight (entry : Text)
  /-- A weight that is no non-negative 64-bit decimal. -/
  | badWeight (state : Text)
  | invalidName (name : Text)
  /-- A colon in a list of names. -/
  | notNameList
  | notSingleName
  /-- The state of a protocol entry is no identifier. -/
  | invalidState (state : Text)
  | secondColon
  | colonInTransition
  | fieldCount (want got : Nat)
  /-- No comma where a transition must stand. -/
  | noFields (want : Nat)
  | ownActionMissing (group : List Text) (action : Text)
  | duplicateState (state : Text)
  /-- A state declared on both sides. -/
  | sharedState (state : Text)
  | reserved
  | undeclaredAgentState (state : Text)
  | undeclaredEnvironmentState (state : Text)
  deriving DecidableEq

def ReadFault.reason : ReadFault → Text
  | endOfInput => "unexpected end of input"
  | noEntries => "expected name: weight entries"
  | noWeight entry => Text.cat ["state ", entry.quote, " has no weight"]
  | badWeight state => Text.cat ["weight of ", state, " must be a non-negative integer"]
  | invalidName name => "invalid name " ++ name.quote
  | notNameList => "expected a list of names"
  | notSingleName => "expected a single state name"
  | invalidState state => "invalid state " ++ state.quote
  | secondColon => "more than one ':'"
  | colonInTransition => "unexpected ':' in transition"
  | fieldCount want got =>
    Text.cat ["expected ", Text.ofNat want, " comma-separated fields, got ", Text.ofNat got]
  | noFields want => Text.cat ["expected ", Text.ofNat want, " comma-separated fields"]
  | ownActionMissing group action =>
    Text.cat ["concurrent actions ", Text.bracketed group,
      " do not include the agent's own action ", action]
  | duplicateState state => "duplicate state " ++ state
  | sharedState state => Text.cat ["state ", state, " is declared by both agent and environment"]
  | reserved => reservedName.quote ++ " is reserved"
  | undeclaredAgentState state => "undeclared agent state " ++ state
  | undeclaredEnvironmentState state => "undeclared environment state " ++ state

/-- A fault and where it was found. -/
structure Malformed where
  /-- The line, zero at the end of the input. -/
  line : Nat
  part : Part
  /-- The offending line, empty when the fault lies between lines. -/
  text : Text
  fault : ReadFault
  deriving DecidableEq

def Malformed.message (e : Malformed) : Text :=
  Text.cat
    ["malformed input", if e.line = 0 then [] else ": line " ++ Text.ofNat e.line,
      " (", e.part.title, "): ", e.fault.reason,
      if e.text.isEmpty then [] else ": " ++ e.text.quote]

inductive ReadError where
  /-- A line has more bytes than fit into a line. -/
  | lineTooLong
  | malformed (e : Malformed)
  deriving DecidableEq

def ReadError.message : ReadError → Text
  | lineTooLong => "read protocol description: bufio.Scanner: token too long"
  | malformed e => e.message

/-- A line with its number. -/
structure Line where
  /-- The number, counted from one. -/
  number : Nat
  text : Text
  deriving DecidableEq

/-- A line must have fewer bytes than this. -/
def lineLimit : Nat := 1048576

/-- The lines of a text without their line feeds; a line feed at the very end opens no line. -/
def rawLines (t : Text) : List Text :=
  let pieces := Text.split (byte '\n') t
  if pieces.getLast? = some [] then pieces.dropLast else pieces

/-- Whether a trimmed line counts. -/
def isSignificant (t : Text) : Bool :=
  !t.isEmpty && t.head? != some (byte '#')

/-- The lines that count, trimmed and numbered. -/
def significantLines (t : Text) : List Line :=
  ((rawLines t).zipIdx 1).filterMap fun (raw, number) =>
    let text := raw.trim
    if isSignificant text then some ⟨number, text⟩ else none

def Line.fail {α : Type} (l : Line) (part : Part) (fault : ReadFault) : Except Malformed α :=
  .error ⟨l.number, part, l.text, fault⟩

/-- A reader of a section: its value and the lines behind it. -/
abbrev SectionReader (α : Type) := List Line → Except Malformed (α × List Line)

def readLine {α : Type} (part : Part) (f : Line → Except Malformed α) : SectionReader α
  | [] => .error ⟨0, part, [], .endOfInput⟩
  | l :: rest => (f l).map fun a => (a, rest)

def Line.checkNames (l : Line) (part : Part) (names : List Text) : Except Malformed Unit :=
  match names.find? fun n => !Name.isValid n with
  | none => .ok ()
  | some n => l.fail part (.invalidName n)

/-- Removes the narrow blanks around every colon. -/
def tightenColons (t : Text) : Text :=
  match Text.split (byte ':') t with
  | [] => []
  | [piece] => piece
  | first :: others =>
    let inner := others.dropLast.map fun p => Text.trimNarrowLeft (Text.trimNarrowRight p)
    let last := Text.trimNarrowLeft (others.getLast?.getD [])
    Text.join ":" (Text.trimNarrowRight first :: inner ++ [last])

/-- Reads `name:weight`. -/
def readAgentState (l : Line) (entry : Text) : Except Malformed AgentState :=
  match entry.cut (byte ':') with
  | none => l.fail .agentStates (.noWeight entry)
  | some (name, weight) =>
    if !Name.isValid name then l.fail .agentStates (.invalidName name)
    else match weight.toInt64? with
      | none => l.fail .agentStates (.badWeight name)
      | some w => if w < 0 then l.fail .agentStates (.badWeight name) else .ok ⟨name, w⟩

def readAgentStates : SectionReader (List AgentState) :=
  readLine .agentStates fun l =>
    let entries := (tightenColons l.text).items
    if entries.isEmpty then l.fail .agentStates .noEntries
    else entries.mapM (readAgentState l)

/-- Reads a list of names, which may be empty. -/
def readNameList (part : Part) : SectionReader (List Text) :=
  readLine part fun l =>
    if l.text.contains (byte ':') then l.fail part .notNameList
    else do
      let names := l.text.items
      l.checkNames part names
      return names

def readSingleName (part : Part) : SectionReader Text :=
  readLine part fun l =>
    if Name.isValid l.text then .ok l.text else l.fail part .notSingleName

/-- Reads an entry of a protocol map, cut at its first colon. -/
def readProtocolEntry (part : Part) (l : Line) (left right : Text) :
    Except Malformed ProtocolEntry :=
  let state := left.trim
  if !Name.isValid state then l.fail part (.invalidState state)
  else if right.contains (byte ':') then l.fail part .secondColon
  else do
    let actions := right.items
    l.checkNames part actions
    return { state, actions, line := l.number }

/-- Reads the entries of a protocol map, up to the first line without a colon. -/
def readProtocolMap (part : Part) : SectionReader (List ProtocolEntry)
  | [] => .ok ([], [])
  | l :: rest =>
    match l.text.cut (byte ':') with
    | none => .ok ([], l :: rest)
    | some (left, right) => do
      let e ← readProtocolEntry part l left right
      let (es, rest) ← readProtocolMap part rest
      return (e :: es, rest)

/-- The trimmed fields of a transition line that has a comma. -/
def readFields (part : Part) (want : Nat) (l : Line) : Except Malformed (List Text) :=
  if l.text.contains (byte ':') then l.fail part .colonInTransition
  else
    let fields := (Text.split (byte ',') l.text).map Text.trim
    if fields.length ≠ want then l.fail part (.fieldCount want fields.length) else .ok fields

/-- The group without one occurrence of the own action, sorted. -/
def othersOf (group : List Text) (action : Text) : List Text :=
  Text.sort (group.erase action)

def readLocalTransition (l : Line) : Except Malformed LocalTransition := do
  let fields ← readFields .agentTransitions 5 l
  match fields with
  | [before, sync, groupText, action, after] =>
    let group := groupText.words
    l.checkNames .agentTransitions ([before, sync, action, after] ++ group)
    if !group.isEmpty && !group.contains action then
      l.fail .agentTransitions (.ownActionMissing group action)
    else
      return { before, action, sync, concurrent := othersOf group action, after, line := l.number }
  | _ => l.fail .agentTransitions (.fieldCount 5 fields.length)

/-- Reads agent transitions, up to the first line without a comma. -/
def readLocalTransitions : SectionReader (List LocalTransition)
  | [] => .ok ([], [])
  | l :: rest =>
    if l.text.contains (byte ',') then do
      let t ← readLocalTransition l
      let (ts, rest) ← readLocalTransitions rest
      return (t :: ts, rest)
    else .ok ([], l :: rest)

def readEnvironmentTransition (l : Line) : Except Malformed EnvironmentTransition :=
  if !l.text.contains (byte ',') then l.fail .environmentTransitions (.noFields 4)
  else do
    let fields ← readFields .environmentTransitions 4 l
    match fields with
    | [before, sync, agentText, after] =>
      let agents := agentText.words
      l.checkNames .environmentTransitions ([before, sync, after] ++ agents)
      return { before, sync, agents := Text.sort agents, after, line := l.number }
    | _ => l.fail .environmentTransitions (.fieldCount 4 fields.length)

/-- The lines at which the single-line sections stand. -/
structure Layout where
  agentStates : Nat
  agentInitial : Nat
  agentLeave : Nat
  environmentStates : Nat
  environmentInitial : Nat
  deriving DecidableEq

/-- The number of the next line, zero at the end. -/
def nextNumber (lines : List Line) : Nat :=
  (lines.head?.map (·.number)).getD 0

/-- Reads the eleven sections. -/
def readSections (lines : List Line) : Except Malformed (Description × Layout) := do
  let atStates := nextNumber lines
  let (states, lines) ← readAgentStates lines
  let (actions, lines) ← readNameList .agentActions lines
  let (protocol, lines) ← readProtocolMap .agentProtocol lines
  let (transitions, lines) ← readLocalTransitions lines
  let atInitial := nextNumber lines
  let (initial, lines) ← readSingleName .agentInitial lines
  let atLeave := nextNumber lines
  let (leave, lines) ← readSingleName .agentLeave lines
  let atEnvStates := nextNumber lines
  let (envStates, lines) ← readNameList .environmentStates lines
  let (envActions, lines) ← readNameList .environmentActions lines
  let (envProtocol, lines) ← readProtocolMap .environmentProtocol lines
  let atEnvInitial := nextNumber lines
  let (envInitial, lines) ← readSingleName .environmentInitial lines
  let envTransitions ← lines.mapM readEnvironmentTransition
  return (
    { agent := { states, actions, protocol, transitions, initial, leave }
      environment :=
        { states := envStates, actions := envActions, protocol := envProtocol,
          initial := envInitial, transitions := envTransitions } },
    { agentStates := atStates, agentInitial := atInitial, agentLeave := atLeave,
      environmentStates := atEnvStates, environmentInitial := atEnvInitial })

def refuse (line : Nat) (part : Part) (fault : ReadFault) : Except Malformed Unit :=
  .error ⟨line, part, [], fault⟩

def requireState (declared : List Text) (line : Nat) (part : Part)
    (fault : Text → ReadFault) (state : Text) : Except Malformed Unit :=
  if declared.contains state then .ok () else refuse line part (fault state)

/-- Checks that agent states are distinct; `seen` holds the ones before. -/
def checkAgentStates (line : Nat) (seen : List Text) : List Text → Except Malformed Unit
  | [] => .ok ()
  | s :: rest =>
    if seen.contains s then refuse line .agentStates (.duplicateState s)
    else checkAgentStates line (s :: seen) rest

/-- Checks that environment states are distinct and no agent states; `seen` holds the ones
before. -/
def checkEnvironmentStates (line : Nat) (agentStates seen : List Text) :
    List Text → Except Malformed Unit
  | [] => .ok ()
  | s :: rest =>
    if seen.contains s then refuse line .environmentStates (.duplicateState s)
    else if agentStates.contains s then refuse line .environmentStates (.sharedState s)
    else checkEnvironmentStates line agentStates (s :: seen) rest

def checkReferences (d : Description) (layout : Layout) : Except Malformed Unit := do
  let agentStates := d.agent.stateNames
  let envStates := d.environment.states
  checkAgentStates layout.agentStates [] agentStates
  checkEnvironmentStates layout.environmentStates agentStates [] envStates
  if agentStates.contains reservedName then
    refuse layout.agentStates .agentStates .reserved
  if envStates.contains reservedName then
    refuse layout.environmentStates .environmentStates .reserved
  requireState agentStates layout.agentInitial .agentInitial .undeclaredAgentState d.agent.initial
  requireState agentStates layout.agentLeave .agentLeave .undeclaredAgentState d.agent.leave
  requireState envStates layout.environmentInitial .environmentInitial .undeclaredEnvironmentState
    d.environment.initial
  d.agent.protocol.forM fun e =>
    requireState agentStates e.line.toNat .agentProtocol .undeclaredAgentState e.state
  d.environment.protocol.forM fun e =>
    requireState envStates e.line.toNat .environmentProtocol .undeclaredEnvironmentState e.state
  d.agent.transitions.forM fun t =>
    [t.before, t.after].forM
      (requireState agentStates t.line.toNat .agentTransitions .undeclaredAgentState)
  d.environment.transitions.forM fun t =>
    [t.before, t.after].forM
      (requireState envStates t.line.toNat .environmentTransitions .undeclaredEnvironmentState)

def readLines (lines : List Line) : Except Malformed Description := do
  let (d, layout) ← readSections lines
  checkReferences d layout
  return d

def read (t : Text) : Except ReadError Description :=
  if (rawLines t).any fun l => lineLimit ≤ l.length then .error .lineTooLong
  else match readLines (significantLines t) with
    | .ok d => .ok d
    | .error e => .error (.malformed e)

end Population.Description
