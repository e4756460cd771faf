import Population.Text.Float
import Population.Text.Quoted

/-!
# Metrics

Counts, gauges and histograms about analyses and simulations, and their exposition as text: the
families by name, each with its samples by label.
-/

namespace Population

open Text (byte)

/-- What is measured. Observations are kept in order. -/
structure Metrics where
  /-- Finished analyses by verdict. -/
  jobs : List (Text × Nat) := []
  inFlight : Int := 0
  globalTransitions : List Nat := []
  guardedTransitions : List Nat := []
  /-- Expansions that nothing realizes. -/
  unmatched : Nat := 0
  /-- Questions by oracle and status. -/
  queries : List ((Text × Text) × Nat) := []
  /-- Durations of questions in nanoseconds, by oracle. -/
  durations : List (Text × List Nat) := []
  simulationSteps : Nat := 0
  deriving DecidableEq

/-- Changes the value at a key, which starts at a default. -/
def changeAt {κ α : Type} [DecidableEq κ] (k : κ) (start : α) (f : α → α) :
    List (κ × α) → List (κ × α)
  | [] => [(k, f start)]
  | (k', a) :: rest => if k' = k then (k, f a) :: rest else (k', a) :: changeAt k start f rest

namespace Metrics

def countJob (m : Metrics) (verdict : Text) : Metrics :=
  { m with jobs := changeAt verdict 0 (· + 1) m.jobs }

def countQuery (m : Metrics) (oracle status : Text) : Metrics :=
  { m with queries := changeAt (oracle, status) 0 (· + 1) m.queries }

def observeDuration (m : Metrics) (oracle : Text) (nanoseconds : Nat) : Metrics :=
  { m with durations := changeAt oracle [] (· ++ [nanoseconds]) m.durations }

/-- Labels with their values. -/
abbrev Labels := List (Text × Text)

structure Histogram where
  count : Nat
  sum : Float
  /-- Upper bounds with the number of observations up to them. -/
  buckets : List (Text × Nat)

inductive Sample where
  | number (n : Int)
  | histogram (h : Histogram)

structure Family where
  name : Text
  help : Text
  kind : Text
  samples : List (Labels × Sample)

/-- The bucket bounds for sizes: the powers of four. -/
def sizeBounds : List (Text × Nat) :=
  (List.range 8).map fun i => (Text.ofNat (Nat.pow 4 i), Nat.pow 4 i)

/-- The bucket bounds for durations in seconds, with their nanoseconds. -/
def durationBounds : List (Text × Nat) :=
  [("0.01", 10000000), ("0.05", 50000000), ("0.1", 100000000), ("0.5", 500000000),
    ("1", 1000000000), ("2", 2000000000), ("5", 5000000000), ("10", 10000000000),
    ("30", 30000000000), ("60", 60000000000)]

def seconds (n : Nat) : Float :=
  .ofNat (n / 1000000000) + .ofNat (n % 1000000000) / 1000000000

/-- The histogram of observations that are summed up in a unit. -/
def histogram (bounds : List (Text × Nat)) (unit : Nat → Float) (observed : List Nat) :
    Histogram where
  count := observed.length
  sum := observed.foldl (fun s n => s + unit n) 0
  buckets := bounds.map fun (t, b) => (t, observed.countP (· ≤ b))

/-- Puts labelled values in the order of their label values. -/
def byLabels {α : Type} (xs : List (List Text × α)) : List (List Text × α) :=
  Text.sortBy (fun a b => a.1 < b.1) xs

def families (m : Metrics) : List Family :=
  let sizes (observed : List Nat) : List (Labels × Sample) :=
    [([], .histogram (histogram sizeBounds .ofNat observed))]
  let number (n : Int) : List (Labels × Sample) := [([], .number n)]
  [⟨"popsafe_global_transitions", "Global transitions produced per composition", "histogram",
      sizes m.globalTransitions⟩,
    ⟨"popsafe_guarded_transitions", "Guarded transitions in each generated counter system",
      "histogram", sizes m.guardedTransitions⟩,
    ⟨"popsafe_jobs_in_flight", "Analysis jobs currently running", "gauge", number m.inFlight⟩,
    ⟨"popsafe_jobs_total",
      "Analysis jobs finished, by verdict (safe, unsafe, inconclusive, failed)", "counter",
      (byLabels (m.jobs.map fun (v, n) => ([v], n))).map fun (ls, n) =>
        (List.zip ["verdict"] ls, .number n)⟩,
    ⟨"popsafe_oracle_duration_seconds", "Duration of reachability oracle queries", "histogram",
      (byLabels (m.durations.map fun (o, ns) => ([o], ns))).map fun (ls, ns) =>
        (List.zip ["oracle"] ls, .histogram (histogram durationBounds seconds ns))⟩,
    ⟨"popsafe_oracle_queries_total", "Reachability oracle queries by oracle and status", "counter",
      (byLabels (m.queries.map fun ((o, s), n) => ([o, s], n))).map fun (ls, n) =>
        (List.zip ["oracle", "status"] ls, .number n)⟩,
    ⟨"popsafe_simulation_steps_total", "Transitions fired by the simulator", "counter",
      number m.simulationSteps⟩,
    ⟨"popsafe_unmatched_synchronizations_total",
      "Expansions discarded because an occurrence had no local transition", "counter",
      number m.unmatched⟩]

def labelValue (t : Text) : Text :=
  t.flatMap fun b =>
    if b = byte '\\' then "\\\\"
    else if b = byte '\n' then "\\n"
    else if b = byte '"' then "\\\""
    else [b]

def labelsText (ls : Labels) : Text :=
  if ls.isEmpty then []
  else Text.cat ["\x7b", Text.join "," (ls.map fun (k, v) =>
    Text.cat [k, "=\"", labelValue v, "\""]), "\x7d"]

def numberText (n : Int) : Text :=
  let size := Shortest.text (.ofNat n.natAbs)
  if n < 0 then byte '-' :: size else size

def sampleText (name : Text) (ls : Labels) : Sample → Text
  | .number n => Text.cat [name, labelsText ls, " ", numberText n, "\n"]
  | .histogram h =>
    let bucket (b : Text × Nat) : Text :=
      Text.cat [name, "_bucket", labelsText (ls.concat ("le", b.1)), " ", Text.ofNat b.2, "\n"]
    Text.cat
      [(h.buckets.concat ("+Inf", h.count)).flatMap bucket,
        name, "_sum", labelsText ls, " ", Shortest.text h.sum, "\n",
        name, "_count", labelsText ls, " ", Text.ofNat h.count, "\n"]

def familyText (f : Family) : Text :=
  if f.samples.isEmpty then []
  else Text.cat
    ["# HELP ", f.name, " ", f.help, "\n", "# TYPE ", f.name, " ", f.kind, "\n",
      f.samples.flatMap fun (ls, s) => sampleText f.name ls s]

def text (m : Metrics) : Text :=
  m.families.flatMap familyText

end Metrics

end Population
