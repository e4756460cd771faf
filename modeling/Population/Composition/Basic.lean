import Population.Composition.Expansion
import Population.Description.Key
import Population.Text.Decimal
import Population.Text.Quoted

/-!
# Composition

A global transition is one step of the environment together with a group of agents. For each
environment transition and each expansion of its slots, every action occurrence must be realized by
a local transition that expects exactly the other occurrences; all choices of such local
transitions give global transitions. An expansion with an occurrence that nothing realizes is
reported as unmatched.
-/

namespace Population

/-- One synchronized step of the environment and a group of agents; the three agent lists are
aligned. -/
structure GlobalTransition where
  agentBefore : List Text
  agentActions : List Text
  envBefore : Text
  sync : Text
  /-- The expansion that was realized. -/
  multiset : List Text
  agentAfter : List Text
  envAfter : Text
  line : Int
  deriving DecidableEq

namespace GlobalTransition

def participants (g : GlobalTransition) : Nat :=
  g.agentBefore.length

/-- The names between brackets with commas. -/
def listText (names : List Text) : Text :=
  Text.cat ["[", Text.join "," names, "]"]

def text (g : GlobalTransition) : Text :=
  Text.cat ["(", Text.join ","
    [listText g.agentBefore, listText g.agentActions, g.envBefore, g.sync, listText g.multiset,
      listText g.agentAfter, g.envAfter], ")"]

/-- The moves of the participants: state before, action and state after. -/
def moves (g : GlobalTransition) : List (Text × Text × Text) :=
  g.agentBefore.zip (g.agentActions.zip g.agentAfter)

def moveText (move : Text × Text × Text) : Text :=
  Text.join " " [move.1.quote, move.2.1.quote, move.2.2.quote]

/-- The transition as a text that does not depend on the order of its participants. -/
def canonical (g : GlobalTransition) : Text :=
  Text.join " " [g.envBefore.quote, g.sync.quote, g.envAfter.quote,
    Text.join ";" (Text.sort (g.moves.map moveText))]

end GlobalTransition

/-- An expansion that cannot be realized, with the key of the first occurrence that nothing
realizes. -/
structure Unmatched where
  environment : EnvironmentTransition
  expansion : List Text
  key : TransitionKey
  deriving DecidableEq

def Unmatched.text (u : Unmatched) : Text :=
  Text.cat
    ["environment transition ", u.environment.before, " -", u.environment.sync, "-> ",
      u.environment.after, " (line ", Text.ofInt u.environment.line, "): expansion ",
      Text.bracketed u.expansion, " has no local transition for ", u.key.text]

/-- How to compose. -/
structure CompositionOptions where
  /-- How many agents may fill one action slot. -/
  maxConcurrency : Int
  /-- Whether repeated expansions, and transitions that differ in the order of their participants
  only, are kept at their first place only. -/
  deduplicate : Bool
  deriving DecidableEq

/-- The result of a composition. -/
structure Composition where
  transitions : List GlobalTransition
  unmatched : List Unmatched
  expansions : Nat
  deriving DecidableEq

/-- The local transitions for each occurrence of an expansion, from position `i` on, or the key of
the first occurrence that has none. -/
def candidatesFrom (ix : TransitionIndex) (sync : Text) (expansion : List Text) (i : Nat) :
    List Text → Except TransitionKey (List (List LocalTransition))
  | [] => .ok []
  | occurrence :: rest =>
    let key := TransitionKey.of occurrence sync (coOccurring expansion i)
    match ix.lookup key with
    | [] => .error key
    | found => (candidatesFrom ix sync expansion (i + 1) rest).map (found :: ·)

def candidates (ix : TransitionIndex) (sync : Text) (expansion : List Text) :
    Except TransitionKey (List (List LocalTransition)) :=
  candidatesFrom ix sync expansion 0 expansion

/-- All ways to take one element of each list, the last list varying fastest. -/
def choices {α : Type} : List (List α) → List (List α)
  | [] => [[]]
  | xs :: rest => xs.flatMap fun x => (choices rest).map (x :: ·)

/-- The global transition of an environment step and one local transition per occurrence. -/
def EnvironmentTransition.joinedBy (et : EnvironmentTransition) (expansion : List Text)
    (choice : List LocalTransition) : GlobalTransition where
  agentBefore := choice.map (·.before)
  agentActions := choice.map (·.action)
  envBefore := et.before
  sync := et.sync
  multiset := expansion
  agentAfter := choice.map (·.after)
  envAfter := et.after
  line := et.line

/-- The outcome for one expansion of one environment transition. -/
def realize (ix : TransitionIndex) (et : EnvironmentTransition) (expansion : List Text) :
    Except Unmatched (List GlobalTransition) :=
  match candidates ix et.sync expansion with
  | .error key => .error ⟨et, expansion, key⟩
  | .ok lists => .ok ((choices lists).map (et.joinedBy expansion))

/-- The elements whose key no element before them has. -/
def firstsBy {α κ : Type} [DecidableEq κ] (key : α → κ) (seen : List κ) : List α → List α
  | [] => []
  | a :: rest =>
    if seen.contains (key a) then firstsBy key seen rest
    else a :: firstsBy key (key a :: seen) rest

def expansionKey (expansion : List Text) : Text :=
  Text.join " " (expansion.map Text.quote)

/-- The expansions of an environment transition that are considered. -/
def expansionsOf (opts : CompositionOptions) (et : EnvironmentTransition) : List (List Text) :=
  let all := expand et.agents opts.maxConcurrency
  if opts.deduplicate then firstsBy expansionKey [] all else all

/-- The outcomes of all expansions, in the order of the environment transitions. -/
def outcomes (d : Description) (opts : CompositionOptions) :
    List (Except Unmatched (List GlobalTransition)) :=
  let ix := TransitionIndex.ofList d.agent.transitions
  d.environment.transitions.flatMap fun et => (expansionsOf opts et).map (realize ix et)

def realized : Except Unmatched (List GlobalTransition) → List GlobalTransition
  | .ok gs => gs
  | .error _ => []

def unrealized : Except Unmatched (List GlobalTransition) → Option Unmatched
  | .ok _ => none
  | .error u => some u

def compose (d : Description) (opts : CompositionOptions) : Composition :=
  let found := outcomes d opts
  let transitions := found.flatMap realized
  { transitions :=
      if opts.deduplicate then firstsBy GlobalTransition.canonical [] transitions else transitions
    unmatched := found.filterMap unrealized
    expansions := found.length }

end Population
