import Population.Allowance
import Population.CounterSystem.Basic

/-!
# Simulation

A simulation fires one transition after the other, up to a number of steps. What fires is chosen by
a picker among the fireable firings; the run ends early when nothing is fireable, when the run is
cancelled, or when the picker points outside the firings it was given.

Random choices are drawn from a permuted congruential generator: a 128-bit linear congruential
generator whose draws are a multiplied and shifted high half, and uniform draws below a bound by the
widening product.
-/

namespace Population

/-- The state of a generator, a number below 2^128. -/
structure Generator where
  state : Nat
  deriving DecidableEq

namespace Generator

def half : Nat := 0x10000000000000000

def multiplier : Nat := 2549297995355413924 * half + 4865540595714422341

def increment : Nat := 6364136223846793005 * half + 1442695040888963407

/-- The generator of a seed: the seed is the high half, and the seed with fixed bits flipped the
low half. -/
def ofSeed (seed : UInt64) : Generator :=
  ⟨seed.toNat * half + (seed ^^^ 0x9e3779b97f4a7c15).toNat⟩

/-- Mixes the halves of a state into a draw. -/
def output (state : Nat) : UInt64 :=
  let hi := UInt64.ofNat (state / half)
  let lo := UInt64.ofNat (state % half)
  let hi := hi ^^^ (hi >>> 32)
  let hi := hi * 0xda942042e4dd58b5
  let hi := hi ^^^ (hi >>> 48)
  hi * (lo ||| 1)

def draw (g : Generator) : UInt64 × Generator :=
  let next := (g.state * multiplier + increment) % (half * half)
  (output next, ⟨next⟩)

/-- Draws again while the low half of the product is below the threshold; a draw is rejected with
chance below `n` in 2^64, so the fuel does not matter. -/
def redraw (n threshold : Nat) : (fuel : Nat) → (product : Nat) → Generator → Nat × Generator
  | 0, product, g => (product / half, g)
  | fuel + 1, product, g =>
    if product % half < threshold then
      let (x, g) := g.draw
      redraw n threshold fuel (x.toNat * n) g
    else (product / half, g)

/-- Draws a number below `n`, uniformly. -/
def below (g : Generator) (n : Nat) : Nat × Generator :=
  let (x, g) := g.draw
  if n.isPowerOfTwo then (x.toNat % n, g)
  else redraw n ((half - n) % n) 1000 (x.toNat * n) g

end Generator

/-- A picker with its own state: it is given the firings that are possible and returns the position
of one of them. -/
structure Picker (σ : Type) where
  pick : σ → List Step → Int × σ

/-- How a concrete picker chooses. -/
inductive Choice where
  | first
  /-- Positions from a list that is repeated; `taken` counts the picks so far. -/
  | script (positions : List Int) (taken : Nat)
  | random (generator : Generator)

def Picker.choice : Picker Choice where
  pick
    | .first, _ => (0, .first)
    | .script ps n, _ => (ps[n % ps.length]?.getD 0, .script ps (n + 1))
    | .random g, steps =>
      let (i, g) := g.below steps.length
      (i, .random g)

inductive SimulationError where
  | cancelled
  | badPick (system : Text) (index : Int) (count : Nat)
  deriving DecidableEq

def SimulationError.message : SimulationError → Text
  | cancelled => Allowance.refusal
  | badPick system index count =>
    Text.cat ["simulate ", system, ": picker returned ", Text.ofInt index, " of ",
      Text.ofNat count, " steps"]

/-- A finished run. -/
structure Run where
  /-- The entries; the first one is the start. -/
  trace : List Step
  /-- Whether the run ended because nothing was fireable. -/
  terminal : Bool
  error : Option SimulationError
  deriving DecidableEq

namespace Run

/-- The number of transitions fired. -/
def steps (r : Run) : Nat :=
  r.trace.length - 1

def last (r : Run) : Marking :=
  (r.trace.getLast?.map (·.marking)).getD ∅

/-- One line per entry: number, transition and marking. -/
def text (r : Run) : Text :=
  Text.cat <| r.trace.zipIdx.map fun (e, i) =>
    Text.cat [Text.padLeft 3 (Text.ofNat i), " ", Text.padRight 12 e.transition, " ",
      e.marking.text, "\n"]

end Run

def startEntry : Text := "initial"

/-- Fires up to `n` transitions from a marking; `done` holds the trace in reverse. -/
def simulateFrom {σ : Type} (picker : Picker σ) (sys : CounterSystem) :
    (n : Nat) → Allowance → σ → Marking → (done : List Step) → Run
  | 0, _, _, m, done => ⟨done.reverse, (sys.fireable m).isEmpty, none⟩
  | n + 1, allowance, s, m, done =>
    match allowance.poll with
    | none => ⟨done.reverse, false, some .cancelled⟩
    | some allowance =>
      match sys.fireable m with
      | [] => ⟨done.reverse, true, none⟩
      | firings =>
        let (i, s) := picker.pick s firings
        match if i < 0 then none else firings[i.toNat]? with
        | none => ⟨done.reverse, false, some (.badPick sys.name i firings.length)⟩
        | some step =>
          simulateFrom picker sys n allowance s step.marking (step :: done)

def simulate {σ : Type} (picker : Picker σ) (sys : CounterSystem) (steps : Int)
    (allowance : Allowance) (s : σ) (start : Marking) : Run :=
  simulateFrom picker sys steps.toNat allowance s start [⟨startEntry, start⟩]

end Population
