import Population.StateSpace.Discovery

/-!
# Searching for a marking

A breadth-first search that stops at the first marking that matches, so the firings that lead to it
are as few as possible. It fails to decide only when it would have to number more states than the
limit allows, or when it is cancelled.
-/

namespace Population

/-- What a marking is compared with. -/
inductive Pattern where
  /-- Equal to the target on every counter but the ignored ones. -/
  | exactly (target : Marking) (ignored : List Text)
  /-- Equal to the target on the counters that it mentions. -/
  | covers (target : Marking)
  /-- At least the target on the counters that it mentions. -/
  | atLeast (target : Marking)

def Pattern.matches (p : Pattern) (m : Marking) : Bool :=
  match p with
  | exactly target ignored =>
    (m.entries.all fun (k, v) => ignored.contains k || v == target.get k) &&
      target.entries.all fun (k, v) => ignored.contains k || m.get k == v
  | covers target => target.entries.all fun (k, v) => m.get k == v
  | atLeast target => target.entries.all fun (k, v) => v ≤ m.get k

/-- How a search ends. -/
inductive SearchEnd where
  /-- The state with that number matches. -/
  | found (id : Nat)
  /-- No reachable marking matches. -/
  | excluded
  | stopped (why : Stop)
  deriving DecidableEq

namespace Discovery

/-- Follows firings from a state in order, up to the first new marking that matches or does not fit
under the limit. -/
def scan (limit : Nat) (wanted : Marking → Bool) (source : Nat) (d : Discovery) :
    List Step → Discovery × Option SearchEnd
  | [] => (d, none)
  | step :: rest =>
    match d.find? step.marking with
    | some _ => scan limit wanted source d rest
    | none =>
      if limit ≤ d.size then (d, some (.stopped (.limit limit)))
      else
        let d' := d.add source step
        if wanted step.marking then (d', some (.found d.size))
        else scan limit wanted source d' rest

/-- Scans states in order, from number `head` on. At most `limit` states are scanned, so that much
fuel is never used up. -/
def searchFrom (sys : CounterSystem) (limit : Nat) (wanted : Marking → Bool) :
    (fuel : Nat) → Allowance → (head : Nat) → Discovery → Discovery × SearchEnd
  | 0, _, _, d => (d, .stopped (.limit limit))
  | fuel + 1, allowance, head, d =>
    match d.marking? head with
    | none => (d, .excluded)
    | some m =>
      match allowance.poll with
      | none => (d, .stopped .cancelled)
      | some allowance =>
        match scan limit wanted head d (sys.fireable m) with
        | (d, some e) => (d, e)
        | (d, none) => searchFrom sys limit wanted fuel allowance (head + 1) d

end Discovery

def search (sys : CounterSystem) (limit : Nat) (allowance : Allowance) (wanted : Marking → Bool) :
    Discovery × SearchEnd :=
  let d := Discovery.start sys.initial
  if wanted sys.initial then (d, .found 0)
  else d.searchFrom sys limit wanted (limit + 1) allowance 0

/-- The outcome of checking one property. -/
structure CheckResult where
  property : Text
  satisfied : Bool
  message : Text
  /-- The firings to the marking that decides. -/
  witness : List Text
  statesChecked : Nat
  deriving DecidableEq

def SearchEnd.stop? : SearchEnd → Option Stop
  | stopped why => some why
  | _ => none

def searchReport (d : Discovery) (e : SearchEnd) : CheckResult :=
  let result (satisfied : Bool) (message : Text) (witness : List Text) : CheckResult :=
    { property := "reachability", satisfied, message, witness, statesChecked := d.size }
  match e with
  | .found id =>
    let witness := d.pathTo id
    result true
      (Text.cat ["target reachable in ", Text.ofNat witness.length, " steps: ",
        ((d.marking? id).getD ∅).text]) witness
  | .excluded => result false "target not reachable from the initial marking" []
  | .stopped (.limit _) =>
    result false (Text.cat ["search stopped after ", Text.ofNat d.size, " states"]) []
  | .stopped .cancelled => result false [] []

/-- Searches and reports. -/
def reach (sys : CounterSystem) (limit : Nat) (allowance : Allowance) (wanted : Marking → Bool) :
    CheckResult × Option Stop :=
  let (d, e) := search sys limit allowance wanted
  (searchReport d e, e.stop?)

end Population
