import Population.Clock
import Mathlib.Data.List.Induction
import Mathlib.Data.List.Nodup
import Mathlib.Algebra.Order.Group.Unbundled.Int

/-!
# Punctual timers

What the timers of a clock are told is fixed by the calls alone.  After any number of
calls the pending timers are those created so far whose deadline lies ahead, by deadline
and then by number: creating a timer puts it behind those with the same deadline, and a
move of the clock cuts the list where the first deadline lies ahead.  A timer is
therefore released in the first call after which the clock is at or past its deadline,
and in no other.
-/

namespace Population

/-- A timer is released before another one: its deadline is earlier, or they have the
same deadline and it was created first. -/
def Timer.Precedes (t u : Timer) : Prop :=
  t.deadline < u.deadline ∨ t.deadline = u.deadline ∧ t.number < u.number

theorem Timer.Precedes.ne {t u : Timer} (h : t.Precedes u) : t ≠ u := by
  rintro rfl
  unfold Timer.Precedes at h
  omega

namespace VirtualClock

/-! ## The list of pending timers -/

theorem mem_enqueue {t u : Timer} {timers : List Timer} :
    u ∈ enqueue t timers ↔ u = t ∨ u ∈ timers := by
  induction timers with
  | nil => simp [enqueue]
  | cons v rest ih =>
      unfold enqueue
      split
      · simp
      · rw [List.mem_cons, ih, List.mem_cons]
        tauto

/-- A timer created last stands behind those with the same deadline. -/
theorem enqueue_pairwise
    {t : Timer} {timers : List Timer} (hsorted : timers.Pairwise Timer.Precedes)
    (hlast : ∀ u ∈ timers, u.number < t.number) :
    (enqueue t timers).Pairwise Timer.Precedes := by
  induction timers with
  | nil => simp [enqueue]
  | cons v rest ih =>
      obtain ⟨hfirst, hrest⟩ := List.pairwise_cons.mp hsorted
      unfold enqueue
      split
      next hbefore =>
        refine List.pairwise_cons.mpr ⟨fun u hu => .inl ?_, hsorted⟩
        rcases List.mem_cons.mp hu with rfl | hu
        · exact hbefore
        · have := hfirst u hu
          unfold Timer.Precedes at this
          omega
      next hbehind =>
        have hlater := ih hrest fun u hu => hlast u (List.mem_cons_of_mem _ hu)
        refine List.pairwise_cons.mpr ⟨fun u hu => ?_, hlater⟩
        rcases mem_enqueue.mp hu with rfl | hu
        · have hnumber := hlast v List.mem_cons_self
          unfold Timer.Precedes
          omega
        · exact hfirst u hu

/-- Of sorted timers, the due ones come first. -/
theorem takeWhile_isDue
    {timers : List Timer} (hsorted : timers.Pairwise Timer.Precedes) (now : Int) :
    timers.takeWhile (isDue now) = timers.filter (isDue now) ∧
      timers.dropWhile (isDue now) = timers.filter fun t => !isDue now t := by
  induction timers with
  | nil => exact ⟨rfl, rfl⟩
  | cons t rest ih =>
      obtain ⟨hfirst, hrest⟩ := List.pairwise_cons.mp hsorted
      obtain ⟨htake, hdrop⟩ := ih hrest
      cases hdue : isDue now t with
      | true =>
          rw [List.takeWhile_cons_of_pos hdue, List.dropWhile_cons_of_pos hdue,
            List.filter_cons_of_pos hdue, List.filter_cons_of_neg (by simp [hdue])]
          exact ⟨congrArg _ htake, hdrop⟩
      | false =>
          have hahead : ∀ u ∈ t :: rest, isDue now u = false := by
            intro u hu
            rcases List.mem_cons.mp hu with rfl | hu
            · exact hdue
            · have hprecedes := hfirst u hu
              unfold Timer.Precedes at hprecedes
              simp only [isDue, decide_eq_false_iff_not] at hdue ⊢
              omega
          rw [List.takeWhile_cons_of_neg (by simp [hdue]),
            List.dropWhile_cons_of_neg (by simp [hdue]),
            List.filter_eq_nil_iff.mpr fun u hu => by simp [hahead u hu],
            List.filter_eq_self.mpr fun u hu => by simp [hahead u hu]]
          exact ⟨rfl, rfl⟩

/-- A move releases the pending timers that are due after it. -/
theorem set_of_sorted
    {c : VirtualClock} (hsorted : c.timers.Pairwise Timer.Precedes)
    (hahead : ∀ t ∈ c.timers, c.now < t.deadline) (time : Int) :
    c.set time =
      ({ c with
          now := (c.set time).1.now
          timers := c.timers.filter fun t => !isDue (c.set time).1.now t },
        (c.timers.filter (isDue (c.set time).1.now)).map
          fun t => ⟨t.number, (c.set time).1.now⟩) := by
  rw [set_now]
  by_cases hback : time ≤ c.now
  · have hnone : ∀ t ∈ c.timers, isDue c.now t = false := fun t ht => by
      simpa [isDue] using hahead t ht
    have hdue : c.timers.filter (isDue c.now) = [] :=
      List.filter_eq_nil_iff.mpr fun t ht => by simp [hnone t ht]
    have hkept : (c.timers.filter fun t => !isDue c.now t) = c.timers :=
      List.filter_eq_self.mpr fun t ht => by simp [hnone t ht]
    rw [max_eq_left hback, hdue, hkept, set, if_pos hback]
    rfl
  · obtain ⟨htake, hdrop⟩ := takeWhile_isDue hsorted time
    rw [max_eq_right (by omega), set, if_neg hback, htake, hdrop]

/-! ## The history of a clock -/

/-- The time after a call that is made at the time `now`: a clock is never set back. -/
def Call.timeAfter (now : Int) : Call → Int
  | .after _ => now
  | .advance d => max now (now + d)
  | .set t => max now t

/-- Whether a call creates a timer. -/
def Call.isAfter : Call → Bool
  | .after _ => true
  | .advance _ | .set _ => false

section History

variable (start : Int) (calls : List Call)

/-- A new clock after its first `i` calls. -/
def clockAt (i : Nat) : VirtualClock :=
  (run { now := start } (calls.take i)).1

/-- What is released during the call that follows the first `i`. -/
def releasedAt (i : Nat) : List Release :=
  match calls[i]? with
  | some call => ((clockAt start calls i).step call).2
  | none => []

/-- The timer created by the call that follows the first `i`. -/
def createdAt (i : Nat) : Option Timer :=
  match calls[i]? with
  | some (.after d) =>
      some ⟨(calls.take i).countP Call.isAfter + 1, (clockAt start calls i).now + d⟩
  | _ => none

/-- The call that follows the first `i` is the first one, from the creation of the timer
on, after which the clock is at or past the deadline. -/
def FallsDue (i : Nat) (t : Timer) : Prop :=
  ∃ j ≤ i, createdAt start calls j = some t ∧
    t.deadline ≤ (clockAt start calls (i + 1)).now ∧
      ∀ m, j ≤ m → m < i → (clockAt start calls (m + 1)).now < t.deadline

end History

theorem run_append (c : VirtualClock) (calls calls' : List Call) :
    c.run (calls ++ calls') =
      (((c.run calls).1.run calls').1, (c.run calls).2 ++ ((c.run calls).1.run calls').2) := by
  induction calls generalizing c with
  | nil => rfl
  | cons call rest ih => simp only [List.cons_append, run, ih, List.append_assoc]

variable {start : Int} {calls : List Call}

theorem clockAt_succ {i : Nat} {call : Call} (hcall : calls[i]? = some call) :
    clockAt start calls (i + 1) = ((clockAt start calls i).step call).1 := by
  rw [clockAt, List.take_add_one, hcall, Option.toList_some, run_append]
  rfl

theorem clockAt_of_length_le {i : Nat} (hle : calls.length ≤ i) :
    clockAt start calls (i + 1) = clockAt start calls i := by
  rw [clockAt, clockAt, List.take_of_length_le hle, List.take_of_length_le (by omega)]

theorem step_now (c : VirtualClock) (call : Call) :
    (c.step call).1.now = call.timeAfter c.now := by
  cases call with
  | after d => exact after_now d c
  | advance d => exact set_now (c.now + d) c
  | set t => exact set_now t c

theorem Call.le_timeAfter (call : Call) (now : Int) : now ≤ call.timeAfter now := by
  cases call with
  | after d => exact le_rfl
  | advance d => exact le_max_left _ _
  | set t => exact le_max_left _ _

theorem clockAt_now_mono {i j : Nat} (hij : i ≤ j) :
    (clockAt start calls i).now ≤ (clockAt start calls j).now := by
  induction hij with
  | refl => exact Int.le_refl _
  | @step j _ ih =>
      refine Int.le_trans ih ?_
      cases hcall : calls[j]? with
      | none => rw [clockAt_of_length_le (List.getElem?_eq_none_iff.mp hcall)]
      | some call =>
          rw [clockAt_succ hcall, step_now]
          exact call.le_timeAfter _

theorem run_released (start : Int) (calls : List Call) :
    (run { now := start } calls).2 =
      (List.range calls.length).flatMap (releasedAt start calls) := by
  induction calls using List.reverseRecOn with
  | nil => rfl
  | append_singleton calls call ih =>
      have hbefore : ∀ i < calls.length, releasedAt start (calls ++ [call]) i =
          releasedAt start calls i := by
        intro i hi
        unfold releasedAt clockAt
        rw [List.getElem?_append_left hi, List.take_append_of_le_length hi.le]
      have hlast : releasedAt start (calls ++ [call]) calls.length =
          ((run { now := start } calls).1.step call).2 := by
        unfold releasedAt clockAt
        rw [List.getElem?_concat_length, List.take_left]
      rw [run_append, ih, List.length_append, List.length_singleton, List.range_succ,
        List.flatMap_append, List.flatMap_singleton, hlast]
      rw [List.flatMap_congr fun i hi => hbefore i (List.mem_range.mp hi)]
      simp [run]

/-! ## Timers by their history -/

theorem createdAt_eq_some_iff {i : Nat} {t : Timer} :
    createdAt start calls i = some t ↔ ∃ d, calls[i]? = some (.after d) ∧
      t = ⟨(calls.take i).countP Call.isAfter + 1, (clockAt start calls i).now + d⟩ := by
  unfold createdAt
  split
  next d hcall => simp [hcall, eq_comm]
  next hother =>
    constructor
    · rintro ⟨⟩
    · rintro ⟨d, hcall, -⟩
      exact absurd hcall (hother d)

/-- Timers are numbered in order of creation. -/
theorem number_lt_number
    {i j : Nat} {t u : Timer} (ht : createdAt start calls i = some t)
    (hu : createdAt start calls j = some u) (hij : i < j) : t.number < u.number := by
  obtain ⟨d, hcall, rfl⟩ := createdAt_eq_some_iff.mp ht
  obtain ⟨_, -, rfl⟩ := createdAt_eq_some_iff.mp hu
  have hsplit : calls.take (i + 1) = calls.take i ++ [.after d] := by
    rw [List.take_add_one, hcall, Option.toList_some]
  have hcount : (calls.take (i + 1)).countP Call.isAfter ≤ (calls.take j).countP Call.isAfter :=
    (List.take_sublist_take_left hij).countP_le
  rw [hsplit, List.countP_append] at hcount
  exact Nat.lt_succ_of_le hcount

theorem eq_of_number_eq
    {i j : Nat} {t u : Timer} (ht : createdAt start calls i = some t)
    (hu : createdAt start calls j = some u) (hnumber : t.number = u.number) : i = j := by
  rcases Nat.lt_trichotomy i j with hlt | heq | hgt
  · exact absurd hnumber (number_lt_number ht hu hlt).ne
  · exact heq
  · exact absurd hnumber (number_lt_number hu ht hgt).ne'

/-- A timer falls due when it is created or when the clock moves past its deadline. -/
theorem fallsDue_iff {i : Nat} {t : Timer} :
    FallsDue start calls i t ↔ ∃ j ≤ i, createdAt start calls j = some t ∧
      t.deadline ≤ (clockAt start calls (i + 1)).now ∧
        (j = i ∨ (clockAt start calls i).now < t.deadline) := by
  constructor
  · rintro ⟨j, hj, hcreated, hdue, hahead⟩
    refine ⟨j, hj, hcreated, hdue, ?_⟩
    rcases hj.eq_or_lt with heq | hlt
    · exact .inl heq
    · obtain ⟨m, rfl⟩ := Nat.exists_eq_add_one_of_ne_zero (by omega : i ≠ 0)
      exact .inr (hahead m (by omega) (by omega))
  · rintro ⟨j, hj, hcreated, hdue, hahead⟩
    refine ⟨j, hj, hcreated, hdue, fun m hjm hmi => ?_⟩
    rcases hahead with rfl | hahead
    · omega
    · exact lt_of_le_of_lt (clockAt_now_mono (by omega : m + 1 ≤ i)) hahead

/-- The pending timers are those created so far whose deadline lies ahead. -/
structure Tracks (start : Int) (calls : List Call) (i : Nat) : Prop where
  created : (clockAt start calls i).created = (calls.take i).countP Call.isAfter
  mem_iff : ∀ t, t ∈ (clockAt start calls i).timers ↔
    (∃ j < i, createdAt start calls j = some t) ∧ (clockAt start calls i).now < t.deadline
  sorted : (clockAt start calls i).timers.Pairwise Timer.Precedes

theorem Tracks.number_le
    {i : Nat} (h : Tracks start calls i) {t : Timer} (ht : t ∈ (clockAt start calls i).timers) :
    t.number ≤ (clockAt start calls i).created := by
  obtain ⟨⟨j, hj, hcreated⟩, -⟩ := (h.mem_iff t).mp ht
  obtain ⟨d, hcall, rfl⟩ := createdAt_eq_some_iff.mp hcreated
  have hcount : (calls.take (j + 1)).countP Call.isAfter ≤ (calls.take i).countP Call.isAfter :=
    (List.take_sublist_take_left hj).countP_le
  rw [List.take_add_one, hcall, Option.toList_some, List.countP_append] at hcount
  rw [h.created]
  simpa [Call.isAfter] using hcount

theorem exists_created_succ {i : Nat} {t : Timer} :
    (∃ j < i + 1, createdAt start calls j = some t) ↔
      (∃ j < i, createdAt start calls j = some t) ∨ createdAt start calls i = some t := by
  constructor
  · rintro ⟨j, hj, hcreated⟩
    rcases Nat.lt_succ_iff_lt_or_eq.mp hj with hlt | rfl
    · exact .inl ⟨j, hlt, hcreated⟩
    · exact .inr hcreated
  · rintro (⟨j, hj, hcreated⟩ | hcreated)
    · exact ⟨j, by omega, hcreated⟩
    · exact ⟨i, by omega, hcreated⟩

/-- The timers that fall due during a call, in the order in which they are released. -/
def Releases (start : Int) (calls : List Call) (i : Nat) (due : List Timer) : Prop :=
  releasedAt start calls i =
      due.map (fun t => ⟨t.number, (clockAt start calls (i + 1)).now⟩) ∧
    (∀ t, t ∈ due ↔ FallsDue start calls i t) ∧ due.Pairwise Timer.Precedes

/-- Where there is no call nothing happens. -/
theorem Tracks.of_none
    {i : Nat} (h : Tracks start calls i) (hcall : calls[i]? = none) :
    Tracks start calls (i + 1) ∧ ∃ due, Releases start calls i due := by
  have hle := List.getElem?_eq_none_iff.mp hcall
  have hnothing : createdAt start calls i = none := by simp [createdAt, hcall]
  have hsucc : clockAt start calls (i + 1) = clockAt start calls i := clockAt_of_length_le hle
  have htake : calls.take (i + 1) = calls.take i := by
    rw [List.take_of_length_le hle, List.take_of_length_le (by omega)]
  refine ⟨⟨?_, fun t => ?_, ?_⟩, [], ?_, fun t => ?_, .nil⟩
  · rw [hsucc, htake, h.created]
  · rw [hsucc, h.mem_iff t, exists_created_succ, hnothing]
    simp
  · rw [hsucc]
    exact h.sorted
  · simp [releasedAt, hcall]
  · rw [fallsDue_iff, hsucc]
    simp only [List.not_mem_nil, false_iff]
    rintro ⟨j, -, hcreated, hdue, rfl | hlt⟩
    · rw [hnothing] at hcreated
      cases hcreated
    · omega

/-- The clock stands still while a timer is created, so nothing else falls due. -/
theorem fallsDue_after_iff
    {i : Nat} {d : Int} (hcall : calls[i]? = some (.after d)) {t : Timer} :
    FallsDue start calls i t ↔ createdAt start calls i = some t ∧ d ≤ 0 := by
  have hnow : (clockAt start calls (i + 1)).now = (clockAt start calls i).now := by
    rw [clockAt_succ hcall]
    exact after_now d _
  have hdeadline : createdAt start calls i = some t →
      t.deadline = (clockAt start calls i).now + d := by
    rw [createdAt, hcall, Option.some.injEq]
    rintro rfl
    rfl
  rw [fallsDue_iff, hnow]
  constructor
  · rintro ⟨j, -, hcreated, hdue, rfl | hlt⟩
    · have := hdeadline hcreated
      exact ⟨hcreated, by omega⟩
    · omega
  · rintro ⟨hcreated, hd⟩
    have := hdeadline hcreated
    exact ⟨i, le_rfl, hcreated, by omega, .inl rfl⟩

/-- A call that creates a timer releases that one or none. -/
theorem Tracks.of_after
    {i : Nat} (h : Tracks start calls i) {d : Int} (hcall : calls[i]? = some (.after d)) :
    Tracks start calls (i + 1) ∧ ∃ due, Releases start calls i due := by
  set c := clockAt start calls i
  have hcreated : createdAt start calls i = some ⟨c.created + 1, c.now + d⟩ := by
    rw [createdAt, hcall, h.created]
  have hsucc : clockAt start calls (i + 1) = (c.after d).1 := clockAt_succ hcall
  have hnow : (clockAt start calls (i + 1)).now = c.now := by rw [hsucc, after_now]
  have hreleased : releasedAt start calls i = (c.after d).2 := by
    rw [releasedAt, hcall]
    rfl
  have hcount : (clockAt start calls (i + 1)).created =
      (calls.take (i + 1)).countP Call.isAfter := by
    rw [List.take_add_one, hcall, Option.toList_some, List.countP_append, ← h.created, hsucc]
    unfold after
    split <;> rfl
  by_cases hd : d ≤ 0
  · have htimers : (clockAt start calls (i + 1)).timers = c.timers := by
      rw [hsucc, after, if_pos hd]
    refine ⟨⟨hcount, fun t => ?_, htimers ▸ h.sorted⟩, [⟨c.created + 1, c.now + d⟩], ?_, ?_, ?_⟩
    · rw [htimers, hnow, h.mem_iff t, exists_created_succ, hcreated, Option.some.injEq]
      constructor
      · rintro ⟨hbefore, hlt⟩
        exact ⟨.inl hbefore, hlt⟩
      · rintro ⟨hbefore | rfl, hlt⟩
        · exact ⟨hbefore, hlt⟩
        · simp only at hlt
          omega
    · rw [hreleased, after, if_pos hd, hnow]
      rfl
    · intro t
      rw [fallsDue_after_iff hcall, and_iff_left hd, hcreated, Option.some.injEq,
        List.mem_singleton, eq_comm]
    · exact List.pairwise_singleton _ _
  · have htimers : (clockAt start calls (i + 1)).timers =
        enqueue ⟨c.created + 1, c.now + d⟩ c.timers := by
      rw [hsucc, after, if_neg hd]
    refine ⟨⟨hcount, fun t => ?_, ?_⟩, [], ?_, ?_, .nil⟩
    · rw [htimers, hnow, mem_enqueue, h.mem_iff t, exists_created_succ, hcreated,
        Option.some.injEq]
      constructor
      · rintro (rfl | ⟨hbefore, hlt⟩)
        · exact ⟨.inr rfl, by simp only; omega⟩
        · exact ⟨.inl hbefore, hlt⟩
      · rintro ⟨hbefore | rfl, hlt⟩
        · exact .inr ⟨hbefore, hlt⟩
        · exact .inl rfl
    · rw [htimers]
      exact enqueue_pairwise h.sorted fun u hu => Nat.lt_succ_of_le (h.number_le hu)
    · rw [hreleased, after, if_neg hd]
      rfl
    · intro t
      rw [fallsDue_after_iff hcall]
      simp [hd]

/-- A call that moves the clock releases the timers that it passes. -/
theorem Tracks.of_move
    {i : Nat} (h : Tracks start calls i) {call : Call} (hcall : calls[i]? = some call)
    {time : Int} (hmove : (clockAt start calls i).step call = (clockAt start calls i).set time)
    (hother : call.isAfter = false) :
    Tracks start calls (i + 1) ∧ ∃ due, Releases start calls i due := by
  set c := clockAt start calls i with hc
  have hnothing : createdAt start calls i = none := by
    unfold createdAt
    rw [hcall]
    cases call <;> simp_all [Call.isAfter]
  have hset := set_of_sorted h.sorted (fun t ht => ((h.mem_iff t).mp ht).2) time
  have hsucc : clockAt start calls (i + 1) = (c.set time).1 := by rw [clockAt_succ hcall, hmove]
  rw [← hsucc] at hset
  set now := (clockAt start calls (i + 1)).now with hnow
  have htimers : (clockAt start calls (i + 1)).timers =
      c.timers.filter fun t => !isDue now t := by rw [hsucc, hset]
  refine ⟨⟨?_, fun t => ?_, htimers ▸ h.sorted.filter _⟩,
    c.timers.filter (isDue now), ?_, fun t => ?_, h.sorted.filter _⟩
  · rw [List.take_add_one, hcall, Option.toList_some, List.countP_append, ← h.created, hsucc,
      hset]
    simp [hother]
  · have hle : (clockAt start calls i).now ≤ now := clockAt_now_mono (Nat.le_succ i)
    rw [htimers, List.mem_filter, h.mem_iff t, exists_created_succ, hnothing]
    simp only [isDue, Bool.not_eq_true', decide_eq_false_iff_not, reduceCtorEq, or_false]
    constructor
    · rintro ⟨⟨hbefore, -⟩, hlt⟩
      exact ⟨hbefore, by omega⟩
    · rintro ⟨hbefore, hlt⟩
      exact ⟨⟨hbefore, by omega⟩, by omega⟩
  · rw [releasedAt, hcall]
    exact congrArg Prod.snd (hmove.trans hset)
  · rw [fallsDue_iff, List.mem_filter, h.mem_iff t]
    simp only [isDue, decide_eq_true_eq]
    constructor
    · rintro ⟨⟨⟨j, hj, hcreated⟩, hlt⟩, hdue⟩
      exact ⟨j, hj.le, hcreated, hdue, .inr hlt⟩
    · rintro ⟨j, hj, hcreated, hdue, rfl | hlt⟩
      · rw [hnothing] at hcreated
        cases hcreated
      · refine ⟨⟨⟨j, lt_of_le_of_ne hj ?_, hcreated⟩, hlt⟩, hdue⟩
        rintro rfl
        rw [hnothing] at hcreated
        cases hcreated

/-- Every call keeps the pending timers in step with the history. -/
theorem Tracks.turn
    {i : Nat} (h : Tracks start calls i) :
    Tracks start calls (i + 1) ∧ ∃ due, Releases start calls i due := by
  cases hcall : calls[i]? with
  | none => exact h.of_none hcall
  | some call =>
      cases call with
      | after d => exact h.of_after hcall
      | advance d => exact h.of_move hcall rfl rfl
      | set time => exact h.of_move hcall rfl rfl

theorem tracks (start : Int) (calls : List Call) (i : Nat) : Tracks start calls i := by
  induction i with
  | zero => exact ⟨rfl, fun t => by simp [clockAt, run], .nil⟩
  | succ i ih => exact (ih.turn).1

theorem FallsDue.eq_of_number
    {i i' : Nat} {t u : Timer} (ht : FallsDue start calls i t) (hu : FallsDue start calls i' u)
    (hnumber : t.number = u.number) : t = u := by
  obtain ⟨j, -, hj, -⟩ := ht
  obtain ⟨j', -, hj', -⟩ := hu
  obtain rfl := eq_of_number_eq hj hj' hnumber
  exact Option.some.inj (hj.symm.trans hj')

/-- A timer falls due in one call only. -/
theorem FallsDue.not_again
    {i i' : Nat} {t : Timer} (h : FallsDue start calls i t) (hlt : i < i') :
    ¬FallsDue start calls i' t := by
  rintro ⟨j', -, hj', -, hahead⟩
  obtain ⟨j, hj, hcreated, hdue, -⟩ := h
  obtain rfl := eq_of_number_eq hcreated hj' rfl
  have := hahead i hj hlt
  omega

theorem Releases.nodup
    {i : Nat} {due : List Timer} (h : Releases start calls i due) :
    (due.map (·.number)).Nodup := by
  obtain ⟨-, hmem, hsorted⟩ := h
  have hdistinct : due.Nodup := hsorted.imp Timer.Precedes.ne
  exact hdistinct.map_on fun t ht u hu hnumber =>
    ((hmem t).mp ht).eq_of_number ((hmem u).mp hu) hnumber

theorem Releases.mem_iff
    {i : Nat} {due : List Timer} (h : Releases start calls i due) {r : Release} :
    r ∈ releasedAt start calls i ↔ ∃ t, FallsDue start calls i t ∧
      r = ⟨t.number, (clockAt start calls (i + 1)).now⟩ := by
  obtain ⟨hreleased, hmem, -⟩ := h
  rw [hreleased, List.mem_map]
  exact exists_congr fun t => and_congr (hmem t) eq_comm

theorem exists_releases (start : Int) (calls : List Call) (i : Nat) :
    ∃ due, Releases start calls i due :=
  (tracks start calls i).turn.2

theorem nodup_released (start : Int) (calls : List Call) :
    ((run { now := start } calls).2.map (·.timer)).Nodup := by
  rw [run_released, List.map_flatMap, List.nodup_flatMap]
  constructor
  · intro i _
    obtain ⟨due, hdue⟩ := exists_releases start calls i
    rw [hdue.1, List.map_map]
    exact hdue.nodup
  · refine List.pairwise_lt_range.imp fun {i i'} hlt => ?_
    intro n hn hn'
    obtain ⟨r, hr, rfl⟩ := List.mem_map.mp hn
    obtain ⟨r', hr', hsame⟩ := List.mem_map.mp hn'
    obtain ⟨due, hdue⟩ := exists_releases start calls i
    obtain ⟨due', hdue'⟩ := exists_releases start calls i'
    obtain ⟨t, ht, rfl⟩ := hdue.mem_iff.mp hr
    obtain ⟨t', ht', rfl⟩ := hdue'.mem_iff.mp hr'
    obtain rfl := ht.eq_of_number ht' hsame.symm
    exact ht.not_again hlt ht'

theorem pending_eq_countP (start : Int) (calls : List Call) (i : Nat) :
    (clockAt start calls i).pending =
      ((List.range i).filterMap (createdAt start calls)).countP
        fun t => (clockAt start calls i).now < t.deadline := by
  have htracks := tracks start calls i
  have hdistinct : (clockAt start calls i).timers.Nodup := htracks.sorted.imp Timer.Precedes.ne
  have hcreated : ((List.range i).filterMap (createdAt start calls)).Nodup :=
    List.nodup_range.filterMap fun j j' t hj hj' => eq_of_number_eq hj hj' rfl
  rw [pending, List.countP_eq_length_filter]
  refine ((List.perm_ext_iff_of_nodup hdistinct (hcreated.filter _)).mpr fun t => ?_).length_eq
  rw [htracks.mem_iff, List.mem_filter, List.mem_filterMap]
  simp

/-- The timers of a clock fire exactly once and on time. -/
structure Punctual (start : Int) (calls : List Call) : Prop where
  starts : (clockAt start calls 0).now = start
  /-- Advancing and setting move the clock to the time asked for, unless that has passed. -/
  moves : ∀ {i : Nat} {call : Call}, calls[i]? = some call →
    (clockAt start calls (i + 1)).now = call.timeAfter (clockAt start calls i).now
  /-- The clock never moves backward. -/
  forward : ∀ {i j : Nat}, i ≤ j → (clockAt start calls i).now ≤ (clockAt start calls j).now
  /-- A timer is told the current time in the first call after which the clock is at or
  past its deadline, and nothing in any other call. -/
  told_iff : ∀ {j : Nat} {t : Timer}, createdAt start calls j = some t → ∀ (i : Nat) (time : Int),
    ⟨t.number, time⟩ ∈ releasedAt start calls i ↔
      FallsDue start calls i t ∧ time = (clockAt start calls (i + 1)).now
  /-- Whatever is released in a run is released during one of its calls, in turn. -/
  released : (run { now := start } calls).2 =
    (List.range calls.length).flatMap (releasedAt start calls)
  /-- No timer is told anything twice. -/
  once : ((run { now := start } calls).2.map (·.timer)).Nodup
  /-- The timers that fall due during one call, and they alone, are released by deadline,
  those with the same deadline in order of creation. -/
  inOrder : ∀ i, ∃ due, Releases start calls i due
  /-- The clock counts the timers whose deadline lies ahead. -/
  pending_eq : ∀ i, (clockAt start calls i).pending =
    ((List.range i).filterMap (createdAt start calls)).countP
      fun t => (clockAt start calls i).now < t.deadline

/-- Whatever is asked of a clock, its timers fire exactly once and on time. -/
theorem punctual (start : Int) (calls : List Call) : Punctual start calls where
  starts := rfl
  moves := fun hcall => by rw [clockAt_succ hcall, step_now]
  forward := clockAt_now_mono
  told_iff := by
    intro j t hcreated i time
    obtain ⟨due, hdue⟩ := exists_releases start calls i
    rw [hdue.mem_iff]
    constructor
    · rintro ⟨u, hu, heq⟩
      obtain ⟨hnumber, rfl⟩ := Release.mk.inj heq
      obtain ⟨j', hj', hcreated', -⟩ := id hu
      obtain rfl := eq_of_number_eq hcreated hcreated' hnumber
      obtain rfl := Option.some.inj (hcreated.symm.trans hcreated')
      exact ⟨hu, rfl⟩
    · rintro ⟨hfalls, rfl⟩
      exact ⟨t, hfalls, rfl⟩
  released := run_released start calls
  once := nodup_released start calls
  inOrder := exists_releases start calls
  pending_eq := pending_eq_countP start calls

/-- Timers that come due together, two of them with one deadline, and one that is due at
once. -/
example : run { now := 0 } [.after 5, .after 3, .after 0, .advance 1, .after 2, .set 4, .set 2,
    .advance 3] =
    (⟨7, 4, []⟩, [⟨3, 0⟩, ⟨2, 4⟩, ⟨4, 4⟩, ⟨1, 7⟩]) := by
  decide

end VirtualClock

end Population
