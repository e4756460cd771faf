import Population.Oracle.Retry
import Mathlib.Algebra.Order.Ring.Int

/-!
# Repeated queries

An oracle whose outcomes are any sequence is asked again and again in surroundings that
are never cancelled and that keep a record of what happens.  The attempts up to the
first outcome other than "could not decide", or all of them, are made one after the
other, with one wait behind each failed attempt but the last.  The waits double as long
as they fit into 64 bits.  The first one that does not fit comes out negative, so from
there on nothing is waited for.
-/

namespace Population

/-- The oracle could not decide. -/
def Reply.IsUndecided (r : Reply) : Prop :=
  ∃ e, r.error = some e ∧ e.isUnavailable = true

namespace Retry

/-- What happens while a query is repeated. -/
inductive Happening where
  /-- The oracle was asked and gave this reply. -/
  | asked (r : Reply)
  /-- There was a wait. -/
  | waited (d : Duration)
  deriving DecidableEq

/-- Whether the oracle was asked. -/
def Happening.isCall : Happening → Bool
  | asked _ => true
  | waited _ => false

/-- How often the oracle was asked. -/
def calls (seen : List Happening) : Nat :=
  seen.countP Happening.isCall

/-- The surroundings in which the oracle gives these outcomes in turn.  The run is never
cancelled, and what happens is kept in order. -/
def observed (name : Text) (outcomes : ℕ → Reply) : Surroundings (List Happening) where
  name := name
  ask seen := (outcomes (calls seen), seen ++ [.asked (outcomes (calls seen))])
  poll seen := some seen
  wait d seen := (true, seen ++ [.waited d])
  log _ seen := seen

/-! ## Waits that double -/

/-- The wait has doubled `n` times and still fits into 64 bits. -/
def Waits (backoff : Duration) (n : ℕ) : Prop :=
  0 < backoff ∧ backoff.toInt * 2 ^ n < 2 ^ 63

instance (backoff : Duration) (n : ℕ) : Decidable (Waits backoff n) :=
  inferInstanceAs (Decidable (_ ∧ _))

theorem Waits.of_succ {backoff : Duration} {n : ℕ} (h : Waits backoff (n + 1)) :
    Waits backoff n := by
  obtain ⟨hpositive, hfits⟩ := h
  refine ⟨hpositive, ?_⟩
  rw [Int64.lt_iff_toInt_lt, Int64.toInt_zero] at hpositive
  have hpower : 0 < backoff.toInt * 2 ^ n := Int.mul_pos hpositive (pow_pos (by decide) n)
  rw [pow_succ, ← Int.mul_assoc] at hfits
  omega

/-- The wait between the attempt with number `n`, counted from zero, and the next one. -/
def pause (backoff : Duration) (n : ℕ) : List Happening :=
  if Waits backoff n then [.waited (Int64.ofInt (backoff.toInt * 2 ^ n))] else []

/-- The attempts before the one with number `n`, each with the wait behind it. -/
def failures (outcomes : ℕ → Reply) (backoff : Duration) (n : ℕ) : List Happening :=
  (List.range n).flatMap fun j => .asked (outcomes j) :: pause backoff j

variable {outcomes : ℕ → Reply} {backoff : Duration}

theorem failures_succ (n : ℕ) :
    failures outcomes backoff (n + 1) =
      failures outcomes backoff n ++ .asked (outcomes n) :: pause backoff n := by
  rw [failures, List.range_succ, List.flatMap_append, List.flatMap_singleton, failures]

theorem calls_failures (n : ℕ) : calls (failures outcomes backoff n) = n := by
  induction n with
  | zero => rfl
  | succ n ih =>
      have hpause : (pause backoff n).countP Happening.isCall = 0 := by
        unfold pause
        split <;> rfl
      rw [failures_succ, calls, List.countP_append, List.countP_cons_of_pos rfl, hpause]
      exact congrArg (· + 1) ih

theorem calls_run (m : ℕ) :
    calls (failures outcomes backoff m ++ [.asked (outcomes m)]) = m + 1 := by
  rw [calls, List.countP_append, ← calls, calls_failures]
  rfl

/-- The duration that is carried along when `n` attempts have failed. -/
def Carries (backoff : Duration) (n : ℕ) (wait : Duration) : Prop :=
  (Waits backoff n → wait.toInt = backoff.toInt * 2 ^ n) ∧ (¬Waits backoff n → wait ≤ 0)

theorem carries_zero (backoff : Duration) : Carries backoff 0 backoff := by
  refine ⟨fun _ => by simp, fun hno => ?_⟩
  by_contra hpositive
  refine hno ⟨Int64.not_le.mp hpositive, ?_⟩
  have := backoff.toInt_lt
  omega

theorem Carries.pos_iff {n : ℕ} {wait : Duration} (h : Carries backoff n wait) :
    0 < wait ↔ Waits backoff n := by
  constructor
  · intro hpositive
    by_contra hno
    exact Int64.not_le.mpr hpositive (h.2 hno)
  · intro hwaits
    rw [Int64.lt_iff_toInt_lt, Int64.toInt_zero, h.1 hwaits]
    have hpositive := Int64.lt_iff_toInt_lt.mp hwaits.1
    rw [Int64.toInt_zero] at hpositive
    exact Int.mul_pos hpositive (pow_pos (by decide) n)

/-- What is waited for doubles, or has become negative. -/
theorem Carries.double {n : ℕ} {wait : Duration} (h : Carries backoff n wait) (hpos : 0 < wait) :
    Carries backoff (n + 1) (wait * 2) := by
  have hwaits := h.pos_iff.mp hpos
  have hwait := h.1 hwaits
  have hlow := Int64.lt_iff_toInt_lt.mp hpos
  have hdouble : (wait * 2).toInt = (backoff.toInt * 2 ^ (n + 1)).bmod (2 ^ 64) := by
    rw [Int64.toInt_mul, hwait, pow_succ, Int.mul_assoc]
    rfl
  rw [Int64.toInt_zero, hwait] at hlow
  have hhigh := hwaits.2
  rw [pow_succ, ← Int.mul_assoc] at hdouble
  constructor
  · rintro ⟨-, hfits⟩
    rw [pow_succ, ← Int.mul_assoc] at hfits ⊢
    rw [hdouble, Int.bmod_eq_of_le] <;> omega
  · intro hno
    have hlarge : 2 ^ 63 ≤ backoff.toInt * 2 ^ n * 2 := by
      by_contra hsmall
      refine hno ⟨hwaits.1, ?_⟩
      rw [pow_succ, ← Int.mul_assoc]
      omega
    rw [Int64.le_iff_toInt_le, hdouble, Int64.toInt_zero, Int.bmod_def]
    split <;> omega

theorem Carries.keep {n : ℕ} {wait : Duration} (h : Carries backoff n wait) (hpos : ¬0 < wait) :
    Carries backoff (n + 1) wait := by
  have hover : ¬Waits backoff n := mt h.pos_iff.mpr hpos
  exact ⟨fun hwaits => absurd hwaits.of_succ hover, fun _ => h.2 hover⟩

/-! ## The run of attempts -/

/-- The attempts end with number `m`, counted from zero: it was the first one with a reply
that settles the query, or the last one allowed. -/
structure EndsWith (outcomes : ℕ → Reply) (attempts m : ℕ) : Prop where
  allowed : m < attempts
  undecided : ∀ j < m, (outcomes j).IsUndecided
  settled : m + 1 = attempts ∨ ¬(outcomes m).IsUndecided

section Attempts

variable (name : Text) (max : Nat) {n : ℕ} (wait : Duration) (last : Option Answer)

/-- Where the query is settled, the attempt is the last one. -/
theorem attemptFrom_settled (left : ℕ) (hsettled : ¬(outcomes n).IsUndecided) :
    attemptFrom (observed name outcomes) max left (n + 1) wait last
        (failures outcomes backoff n) =
      (outcomes n, failures outcomes backoff n ++ [.asked (outcomes n)]) := by
  unfold attemptFrom
  simp only [observed, calls_failures]
  cases herror : (outcomes n).error with
  | none => simp only [ite_self]
  | some e =>
      have hdecided : e.isUnavailable = false := by
        rw [← Bool.not_eq_true]
        exact fun h => hsettled ⟨e, herror, h⟩
      simp only [hdecided, Bool.not_false, if_true]

/-- Where no attempt is left, it is the last one. -/
theorem attemptFrom_zero :
    attemptFrom (observed name outcomes) max 0 (n + 1) wait last
        (failures outcomes backoff n) =
      (outcomes n, failures outcomes backoff n ++ [.asked (outcomes n)]) := by
  unfold attemptFrom
  simp only [observed, calls_failures]
  cases (outcomes n).error with
  | none => simp only [ite_self]
  | some e => simp only [ite_self]

/-- Otherwise there is a wait, if it is positive, and another attempt. -/
theorem attemptFrom_again
    (left : ℕ) (hundecided : (outcomes n).IsUndecided) (hcarries : Carries backoff n wait) :
    attemptFrom (observed name outcomes) max (left + 1) (n + 1) wait last
        (failures outcomes backoff n) =
      attemptFrom (observed name outcomes) max left (n + 2)
        (if 0 < wait then wait * 2 else wait) (outcomes n).answer
        (failures outcomes backoff (n + 1)) := by
  obtain ⟨e, herror, hunavailable⟩ := hundecided
  rw [attemptFrom, failures_succ, pause]
  simp only [observed, calls_failures, herror, hunavailable, Bool.not_true, Bool.false_eq_true,
    if_false]
  by_cases hpos : 0 < wait
  · have hwaits := hcarries.pos_iff.mp hpos
    rw [if_pos hpos, if_pos hpos, if_pos hwaits, ← hcarries.1 hwaits, Int64.ofInt_toInt,
      List.append_assoc, List.singleton_append]
  · rw [if_neg hpos, if_neg hpos, if_neg (mt hcarries.pos_iff.mpr hpos)]

end Attempts

theorem attemptFrom_observed
    (name : Text) (outcomes : ℕ → Reply) (max left n : ℕ) {wait : Duration}
    (hcarries : Carries backoff n wait) (last : Option Answer)
    (hbefore : ∀ j < n, (outcomes j).IsUndecided) :
    ∃ m, EndsWith outcomes (n + left + 1) m ∧
      attemptFrom (observed name outcomes) max left (n + 1) wait last
          (failures outcomes backoff n) =
        (outcomes m, failures outcomes backoff m ++ [.asked (outcomes m)]) := by
  induction left generalizing n wait last with
  | zero => exact ⟨n, ⟨by omega, hbefore, .inl rfl⟩, attemptFrom_zero name max wait last⟩
  | succ left ih =>
      by_cases hundecided : (outcomes n).IsUndecided
      · have hnext : Carries backoff (n + 1) (if 0 < wait then wait * 2 else wait) := by
          split
          next hpos => exact hcarries.double hpos
          next hpos => exact hcarries.keep hpos
        have hbefore' : ∀ j < n + 1, (outcomes j).IsUndecided := by
          intro j hj
          rcases Nat.lt_succ_iff_lt_or_eq.mp hj with hlt | rfl
          · exact hbefore j hlt
          · exact hundecided
        obtain ⟨m, hends, hrun⟩ := ih (n + 1) hnext (outcomes n).answer hbefore'
        rw [Nat.add_right_comm n 1 left] at hends
        refine ⟨m, hends, ?_⟩
        rw [attemptFrom_again name max wait last left hundecided hcarries]
        exact hrun
      · exact ⟨n, ⟨by omega, hbefore, .inr hundecided⟩,
          attemptFrom_settled name max wait last (left + 1) hundecided⟩

/-! ## The query -/

/-- What comes of asking up to a number of times, given the outcomes of the oracle: the
reply and what was seen. -/
structure RepeatsOnly (outcomes : ℕ → Reply) (attempts : ℕ) (backoff : Duration)
    (reply : Reply) (seen : List Happening) : Prop where
  /-- The oracle is asked until it settles the query, if there are enough attempts. -/
  calls_eq_min : ∀ k, (∀ j < k, (outcomes j).IsUndecided) → ¬(outcomes k).IsUndecided →
    calls seen = min (k + 1) attempts
  /-- All attempts are made if it never does. -/
  calls_eq : (∀ k, (outcomes k).IsUndecided) → calls seen = attempts
  /-- Answer and error are those of the last call. -/
  reply_eq : calls seen ≠ 0 ∧ reply = outcomes (calls seen - 1)
  /-- An answer was given by the oracle. -/
  given : reply.error = none → ∃ j < calls seen, outcomes j = reply
  /-- If the reply is undecided, so were the replies to all attempts. -/
  exhausted : reply.IsUndecided →
    calls seen = attempts ∧ ∀ j < attempts, (outcomes j).IsUndecided
  /-- Behind each call but the last stands the wait that has doubled with every earlier
  one, as long as it fits, and nothing else happens. -/
  seen_eq : seen = failures outcomes backoff (calls seen - 1) ++ [.asked reply]

theorem EndsWith.repeatsOnly
    {attempts m : ℕ} (h : EndsWith outcomes attempts m) (backoff : Duration) :
    RepeatsOnly outcomes attempts backoff (outcomes m)
      (failures outcomes backoff m ++ [.asked (outcomes m)]) where
  calls_eq_min := by
    intro k hbefore hsettled
    rw [calls_run]
    have hallowed := h.allowed
    have hle : m ≤ k := by
      by_contra hlt
      exact hsettled (h.undecided k (Nat.lt_of_not_le hlt))
    rcases h.settled with hlast | hdecided
    · omega
    · have heq : m = k := by
        by_contra hne
        exact hdecided (hbefore m (by omega))
      omega
  calls_eq := by
    intro hnever
    rw [calls_run]
    exact h.settled.resolve_right (not_not.mpr (hnever m))
  reply_eq := by
    rw [calls_run]
    exact ⟨Nat.succ_ne_zero m, rfl⟩
  given := by
    intro _
    rw [calls_run]
    exact ⟨m, Nat.lt_succ_self m, rfl⟩
  exhausted := by
    intro hundecided
    have hlast := h.settled.resolve_right (not_not.mpr hundecided)
    rw [calls_run]
    refine ⟨hlast, fun j hj => ?_⟩
    rcases Nat.lt_succ_iff_lt_or_eq.mp (hlast ▸ hj : j < m + 1) with hlt | rfl
    · exact h.undecided j hlt
    · exact hundecided
  seen_eq := by
    rw [calls_run]
    rfl

/-- Asking up to `maxAttempts` times, and at least once, changes nothing about the
oracle's replies but that undecided ones are followed by another attempt. -/
theorem ask_repeatsOnly
    (name : Text) (outcomes : ℕ → Reply) (maxAttempts : Int) (backoff : Duration) :
    RepeatsOnly outcomes (max maxAttempts 1).toNat backoff
      (ask (observed name outcomes) maxAttempts backoff []).1
      (ask (observed name outcomes) maxAttempts backoff []).2 := by
  obtain ⟨m, hends, hrun⟩ := attemptFrom_observed name outcomes
    (max maxAttempts 1).toNat ((max maxAttempts 1).toNat - 1) 0 (carries_zero backoff) none
    (by omega)
  have hattempts : 0 + ((max maxAttempts 1).toNat - 1) + 1 = (max maxAttempts 1).toNat := by
    omega
  rw [hattempts] at hends
  have hask : ask (observed name outcomes) maxAttempts backoff [] =
      (outcomes m, failures outcomes backoff m ++ [.asked (outcomes m)]) := hrun
  rw [hask]
  exact hends.repeatsOnly backoff

/-- Three waits are due between four attempts, and the third does not fit any more. -/
example :
    let undecided : Reply := ⟨none, some .unavailable⟩
    (ask (observed "oracle" fun _ => undecided) 4 0x2000000000000000 []).2 =
      [.asked undecided, .waited 0x2000000000000000, .asked undecided,
        .waited 0x4000000000000000, .asked undecided, .asked undecided] := by
  decide

end Retry

end Population
