import Population.Proofs.Marking.Basic
import Population.Proofs.StateSpace.Property

/-!
# Linear invariants

An invariant bounds a weighted sum of the counters.  The check adds up modulo
2^64, so it decides by the residue of the sum that lies in the 64-bit range.  The
order of the summands and the products in between do not matter: where the sum
itself fits, the check decides by the sum.  Where a sum leaves the range, a
violated invariant can be reported as satisfied.
-/

namespace Population

namespace StateSpace

open Marking (Fits)

variable {s : StateSpace} {coefficients m : Marking} {bound : Int64} {name : Text}

/-- The sum of the counters with coefficients, as an integer. -/
def exactSum (coefficients m : Marking) : Int :=
  (coefficients.entries.map fun e => e.2.toInt * m.value e.1).sum

/-- What becomes of the sum modulo 2^64, as a number in the 64-bit range. -/
def wrappedSum (coefficients m : Marking) : Int :=
  (exactSum coefficients m).bmod (2 ^ 64)

/-! ## The sum that is computed -/

theorem toInt_foldl_weighted (m : Marking) (es : List (Text × Int64)) (start : Int64) :
    (es.foldl (fun sum e => sum + e.2 * m.get e.1) start).toInt =
      (start.toInt + (es.map fun e => e.2.toInt * m.value e.1).sum).bmod (2 ^ 64) := by
  induction es generalizing start with
  | nil =>
      have hlow := start.le_toInt
      have hhigh := start.toInt_lt
      rw [List.foldl_nil, List.map_nil, List.sum_nil, Int.add_zero]
      exact (Int.bmod_eq_of_le (by omega) (by omega)).symm
  | cons e rest ih =>
      rw [List.foldl_cons, ih, Int64.toInt_add, Int64.toInt_mul, Int.add_bmod_bmod,
        Int.bmod_add_bmod, List.map_cons, List.sum_cons, Int.add_assoc]
      rfl

/-- The check computes the sum modulo 2^64. -/
theorem toInt_weighted (coefficients m : Marking) :
    (weighted coefficients m).toInt = wrappedSum coefficients m := by
  have hsum := toInt_foldl_weighted m coefficients.entries 0
  rw [Int64.toInt_zero, Int.zero_add] at hsum
  exact hsum

theorem wrappedSum_eq_of_fits (h : Fits (exactSum coefficients m)) :
    wrappedSum coefficients m = exactSum coefficients m := by
  obtain ⟨hlow, hhigh⟩ := h
  exact Int.bmod_eq_of_le (by omega) (by omega)

/-- Only a sum that is too large can exceed the bound unnoticed. -/
theorem le_exactSum_of_unnoticed
    (hexceeds : bound.toInt < exactSum coefficients m)
    (hunnoticed : wrappedSum coefficients m ≤ bound.toInt) :
    2 ^ 63 ≤ exactSum coefficients m := by
  by_contra hsmall
  have hlow := bound.le_toInt
  have hfits : Fits (exactSum coefficients m) := ⟨by omega, by omega⟩
  rw [wrappedSum_eq_of_fits hfits] at hunnoticed
  omega

/-! ## The check -/

/-- The report of a state at which a sum exceeds the bound. -/
def violationAt (s : StateSpace) (name : Text) (bound : Int64) (sum : Int) (id : Nat) :
    CheckResult :=
  s.reportAt name false
    (Text.cat ["invariant violated at state ", Text.ofNat id, ": sum=", Text.ofInt sum,
      " > bound=", Text.ofInt64 bound]) id

/-- The state is the first one at which a sum exceeds the bound. -/
structure FirstAbove (s : StateSpace) (sum : Marking → Int) (bound : Int64) (id : Nat)
    (m : Marking) : Prop where
  marking_eq : s.markings[id]? = some m
  above : bound.toInt < sum m
  least : ∀ j < id, ∀ m', s.markings[j]? = some m' → sum m' ≤ bound.toInt

/-- A report on a linear invariant goes by these sums: it is satisfied exactly when
no explored state exceeds the bound, and otherwise shows the first one that does. -/
structure DecidedBy (s : StateSpace) (sum : Marking → Int) (bound : Int64) (name : Text)
    (r : CheckResult) : Prop where
  satisfied_iff : r.satisfied = true ↔ ∀ m ∈ s.markings, sum m ≤ bound.toInt
  first_violation : r.satisfied = false →
    ∃ id m, s.FirstAbove sum bound id m ∧ r = s.violationAt name bound (sum m) id

/-- Only the sums of the explored states matter. -/
theorem DecidedBy.congr
    {sum sum' : Marking → Int} (hsum : ∀ m ∈ s.markings, sum m = sum' m) {r : CheckResult}
    (h : s.DecidedBy sum bound name r) : s.DecidedBy sum' bound name r where
  satisfied_iff := by
    rw [h.satisfied_iff]
    exact forall₂_congr fun m hm => by rw [hsum m hm]
  first_violation := by
    intro hviolated
    obtain ⟨id, m, ⟨hm, habove, hleast⟩, hr⟩ := h.first_violation hviolated
    have heq := hsum m (List.mem_of_getElem? hm)
    refine ⟨id, m, ⟨hm, heq ▸ habove, fun j hj m' hm' => ?_⟩, heq ▸ hr⟩
    rw [← hsum m' (List.mem_of_getElem? hm')]
    exact hleast j hj m' hm'

/-- The check goes by the wrapped sums. -/
theorem invariant_decidedBy
    (s : StateSpace) (coefficients : Marking) (bound : Int64) (name : Text) :
    s.DecidedBy (wrappedSum coefficients) bound name (s.invariant coefficients bound name) := by
  have hexceeds : ∀ m, decide (bound < weighted coefficients m) = true ↔
      bound.toInt < wrappedSum coefficients m := by
    intro m
    rw [decide_eq_true_eq, Int64.lt_iff_toInt_lt, toInt_weighted]
  have hwithin : ∀ m, decide (bound < weighted coefficients m) = false ↔
      wrappedSum coefficients m ≤ bound.toInt := by
    intro m
    rw [← Bool.not_eq_true, hexceeds, Int.not_lt]
  unfold invariant
  cases hfirst : s.first? fun m _ => bound < weighted coefficients m with
  | none =>
      refine ⟨iff_of_true rfl fun m hm => ?_, by simp [report]⟩
      obtain ⟨id, hid⟩ := List.mem_iff_getElem?.mp hm
      exact (hwithin m).mp (first?_eq_none_iff.mp hfirst id m hid)
  | some state =>
      obtain ⟨m, id⟩ := state
      obtain ⟨hm, habove, hleast⟩ := first?_eq_some_iff.mp hfirst
      rw [hexceeds] at habove
      refine ⟨iff_of_false (by simp [reportAt, report]) fun hall => ?_, fun _ => ?_⟩
      · have hle := hall m (List.mem_of_getElem? hm)
        omega
      · refine ⟨id, m, ⟨hm, habove, fun j hj m' hm' => (hwithin m').mp (hleast j hj m' hm')⟩, ?_⟩
        rw [violationAt, ← toInt_weighted]
        rfl

end StateSpace

open StateSpace Marking

/-- The check of a linear invariant goes by the sums modulo 2^64.  Where the sums
of the explored states fit into 64 bits it goes by the sums themselves.  Where some
do not, a violated invariant is reported as satisfied exactly when every excess
wraps around to a number within the bound. -/
theorem invariant_decided_modulo
    (s : StateSpace) (coefficients : Marking) (bound : Int64) (name : Text) :
    s.DecidedBy (wrappedSum coefficients) bound name (s.invariant coefficients bound name) ∧
      ((∀ m ∈ s.markings, Fits (exactSum coefficients m)) →
        s.DecidedBy (exactSum coefficients) bound name (s.invariant coefficients bound name)) ∧
      ((s.invariant coefficients bound name).satisfied = true ∧
          (∃ m ∈ s.markings, bound.toInt < exactSum coefficients m) ↔
        (∀ m ∈ s.markings, wrappedSum coefficients m ≤ bound.toInt) ∧
          ∃ m ∈ s.markings, 2 ^ 63 ≤ exactSum coefficients m) := by
  have hwrapped := s.invariant_decidedBy coefficients bound name
  refine ⟨hwrapped, fun hfits => ?_, ?_⟩
  · exact hwrapped.congr fun m hm => wrappedSum_eq_of_fits (hfits m hm)
  · rw [hwrapped.satisfied_iff]
    refine and_congr_right fun hall => exists_congr fun m => and_congr_right fun hm => ?_
    constructor
    · exact fun hexceeds => le_exactSum_of_unnoticed hexceeds (hall m hm)
    · intro hlarge
      have hbound := bound.toInt_lt
      omega

/-- One counter is full, and there is one token beside it. -/
def brimText : Text :=
  "gal brim \x7b int low = 9223372036854775807; int high = 1; \x7d"

/-- The tokens of a full counter and one more are counted as a negative number, so
they pass for at most ten. -/
theorem full_counter_unnoticed :
    ∃ sys s, CounterSystem.read brimText = .ok sys ∧
      StateSpace.build sys (stateLimit 10) .unlimited = (s, none) ∧
      (s.invariant (.ofList [("low", 1), ("high", 1)]) 10 "tokens").satisfied = true ∧
      (∃ m ∈ s.markings, exactSum (.ofList [("low", 1), ("high", 1)]) m = 2 ^ 63) ∧
      ¬s.DecidedBy (exactSum (.ofList [("low", 1), ("high", 1)])) 10 "tokens"
        (s.invariant (.ofList [("low", 1), ("high", 1)]) 10 "tokens") := by
  obtain ⟨sys, hread, hrun⟩ := Description.exists_eq_ok_of_any
    (x := CounterSystem.read brimText)
    (p := fun sys =>
      let (s, stop) := StateSpace.build sys (stateLimit 10) .unlimited
      stop = none ∧
        (s.invariant (.ofList [("low", 1), ("high", 1)]) 10 "tokens").satisfied = true ∧
        ∃ m ∈ s.markings, exactSum (.ofList [("low", 1), ("high", 1)]) m = 2 ^ 63)
    (by decide +kernel)
  obtain ⟨s, stop, hbuild⟩ :
      ∃ s stop, StateSpace.build sys (stateLimit 10) .unlimited = (s, stop) := ⟨_, _, rfl⟩
  rw [hbuild] at hrun
  obtain ⟨rfl, hsatisfied, m, hm, hsum⟩ := of_decide_eq_true hrun
  refine ⟨sys, s, hread, hbuild, hsatisfied, ⟨m, hm, hsum⟩, fun hdecided => ?_⟩
  have hle := hdecided.satisfied_iff.mp hsatisfied m hm
  rw [hsum] at hle
  exact absurd hle (by decide)

end Population
