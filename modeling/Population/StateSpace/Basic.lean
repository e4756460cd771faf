import Population.StateSpace.Discovery

/-!
# State spaces

The reachability graph of a counter system, explored breadth first under a limit on the number of
states. States are expanded in the order of their numbers; before each expansion the run may be
cancelled and the limit is tested.
-/

namespace Population

/-- A firing of the graph, seen from its source. -/
structure Edge where
  transition : Text
  target : Nat
  deriving DecidableEq

/-- The explored part of a reachability graph. -/
structure StateSpace where
  found : Discovery
  /-- The edges of the expanded states, by number of the source. -/
  edges : Array (List Edge)
  /-- Whether every state was expanded. -/
  complete : Bool

namespace StateSpace

def size (s : StateSpace) : Nat :=
  s.found.size

def markings (s : StateSpace) : List Marking :=
  s.found.nodes.toList.map (·.marking)

def edgesFrom (s : StateSpace) (id : Nat) : List Edge :=
  s.edges[id]?.getD []

def edgeCount (s : StateSpace) : Nat :=
  s.edges.toList.flatten.length

/-- Follows one firing from a state: a new marking gets the next number. -/
def follow (source : Nat) (d : Discovery) (step : Step) : Discovery × Edge :=
  match d.find? step.marking with
  | some id => (d, ⟨step.transition, id⟩)
  | none => (d.add source step, ⟨step.transition, d.size⟩)

def followAll (source : Nat) (d : Discovery) : List Step → Discovery × List Edge
  | [] => (d, [])
  | step :: rest =>
    let (d, e) := follow source d step
    let (d, es) := followAll source d rest
    (d, e :: es)

/-- Expands states in order. At most `limit` states are ever expanded, so that much fuel is never
used up. -/
def explore (sys : CounterSystem) (limit : Nat) :
    (fuel : Nat) → Allowance → Discovery → Array (List Edge) → StateSpace × Option Stop
  | 0, _, d, edges => (⟨d, edges, false⟩, some (.limit limit))
  | fuel + 1, allowance, d, edges =>
    match d.marking? edges.size with
    | none => (⟨d, edges, true⟩, none)
    | some m =>
      match allowance.poll with
      | none => (⟨d, edges, false⟩, some .cancelled)
      | some allowance =>
        if limit ≤ d.size then (⟨d, edges, false⟩, some (.limit limit))
        else
          let (d, es) := followAll edges.size d (sys.fireable m)
          explore sys limit fuel allowance d (edges.push es)

/-- Explores the states that are reachable from the initial marking. -/
def build (sys : CounterSystem) (limit : Nat) (allowance : Allowance) :
    StateSpace × Option Stop :=
  explore sys limit (limit + 1) allowance (.start sys.initial) #[]

/-- The number and marking of the state that a marking stands for. -/
def lookup (s : StateSpace) (m : Marking) : Option (Nat × Marking) := do
  let id ← s.found.find? m
  let m ← s.found.marking? id
  return (id, m)

end StateSpace

end Population
