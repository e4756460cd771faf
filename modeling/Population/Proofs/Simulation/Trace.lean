import Population.Simulation
import Population.Proofs.StateSpace.Graph

/-!
# Simulations are runs

A picker is asked again and again, and what it chooses fires.  `Picker.Chooses`
says which firings that gives from a marking on, without any regard to a limit or
a cancellation.  A simulation fires such a sequence and stops: after its last
step, where nothing is fireable, where it is cancelled, or where the picker points
outside the firings that it was given.  What a trace is like is then read off the
choices, and how a run ends off the place where it stops.
-/

namespace Population

variable {σ : Type} {picker : Picker σ} {sys : CounterSystem}

/-! ## Choices -/

namespace Picker

/-- Asked from its state `s` on, the picker chooses these firings one after the
other, starting at the marking `m`; its state and the marking afterwards are `s'`
and `m'`. -/
inductive Chooses (picker : Picker σ) (sys : CounterSystem) :
    σ → Marking → List Step → σ → Marking → Prop
  | nil {s : σ} {m : Marking} : Chooses picker sys s m [] s m
  | cons {s s₁ s' : σ} {m m' : Marking} {i : Nat} {step : Step} {rest : List Step}
      (hpick : picker.pick s (sys.fireable m) = ((i : Int), s₁))
      (hstep : (sys.fireable m)[i]? = some step)
      (hrest : Chooses picker sys s₁ step.marking rest s' m') :
      Chooses picker sys s m (step :: rest) s' m'

/-- Asked at a marking where something is fireable, the picker points outside the
firings. -/
structure Misses (picker : Picker σ) (sys : CounterSystem) (s : σ) (m : Marking) : Prop where
  fireable_ne_nil : sys.fireable m ≠ []
  outside : (picker.pick s (sys.fireable m)).1 < 0 ∨
    (sys.fireable m).length ≤ (picker.pick s (sys.fireable m)).1

/-- What can happen when the picker is asked. -/
theorem turn_cases (picker : Picker σ) (sys : CounterSystem) (s : σ) (m : Marking) :
    sys.fireable m = [] ∨ picker.Misses sys s m ∨
      ∃ (i : Nat) (s₁ : σ) (step : Step),
        picker.pick s (sys.fireable m) = ((i : Int), s₁) ∧ (sys.fireable m)[i]? = some step := by
  by_cases hnil : sys.fireable m = []
  · exact .inl hnil
  refine .inr ?_
  obtain ⟨⟨position, s₁⟩, hpick⟩ : ∃ answer, picker.pick s (sys.fireable m) = answer := ⟨_, rfl⟩
  by_cases hinside : 0 ≤ position ∧ position < (sys.fireable m).length
  · obtain ⟨i, rfl⟩ := Int.eq_ofNat_of_zero_le hinside.1
    have hi : i < (sys.fireable m).length := Int.ofNat_lt.mp hinside.2
    exact .inr ⟨i, s₁, _, hpick, List.getElem?_eq_getElem hi⟩
  · refine .inl ⟨hnil, ?_⟩
    rw [hpick]
    omega

namespace Chooses

variable {s s' : σ} {m m' : Marking} {firings : List Step}

/-- Each choice is fireable at the marking before it. -/
theorem isChain (h : picker.Chooses sys s m firings s' m') {first : Step}
    (hfirst : first.marking = m) :
    (first :: firings).IsChain fun a b => b ∈ sys.fireable a.marking := by
  induction h generalizing first with
  | nil => exact .singleton first
  | cons _ hstep _ ih =>
      refine .cons_cons ?_ (ih rfl)
      rw [hfirst]
      exact List.mem_of_getElem? hstep

theorem getLast?_eq (h : picker.Chooses sys s m firings s' m') {first : Step}
    (hfirst : first.marking = m) :
    (first :: firings).getLast?.map (·.marking) = some m' := by
  induction h generalizing first with
  | nil => simp [hfirst]
  | cons _ _ _ ih =>
      rw [List.getLast?_cons_cons]
      exact ih rfl

/-- From a reachable marking on, only reachable markings are met. -/
theorem exists_reachable (h : picker.Chooses sys s m firings s' m') (hm : sys.Reachable m) :
    ∀ e ∈ firings, ∃ before, sys.Reachable before ∧ e ∈ sys.fireable before := by
  induction h with
  | nil => simp
  | @cons _ _ _ m _ _ step rest _ hstep _ ih =>
      have hmem := List.mem_of_getElem? hstep
      exact List.forall_mem_cons.mpr ⟨⟨m, hm, hmem⟩, ih (hm.of_mem_fireable hmem)⟩

theorem nonNegative (h : picker.Chooses sys s m firings s' m') :
    ∀ e ∈ firings, e.marking.nonNegative = true := by
  induction h with
  | nil => simp
  | cons _ hstep _ ih =>
      obtain ⟨t, -, -, hfire⟩ := CounterSystem.mem_fireable_iff.mp (List.mem_of_getElem? hstep)
      obtain ⟨-, -, hnonneg⟩ := Transition.fire?_eq_some_iff.mp hfire
      exact List.forall_mem_cons.mpr ⟨hnonneg, ih⟩

/-- Where nothing is fireable there is nothing to choose. -/
theorem eq_nil_of_stuck (h : picker.Chooses sys s m firings s' m') (hm : sys.fireable m = []) :
    firings = [] := by
  cases h with
  | nil => rfl
  | cons _ hstep _ => simp [hm] at hstep

end Chooses

end Picker

/-! ## One step of a simulation -/

section Step

variable {n : Nat} {allowance rest : Allowance} {s : σ} {m : Marking} {done : List Step}

theorem simulateFrom_cancelled (hpoll : allowance.poll = none) :
    simulateFrom picker sys (n + 1) allowance s m done =
      ⟨done.reverse, false, some .cancelled⟩ := by
  rw [simulateFrom, hpoll]

theorem simulateFrom_stuck (hpoll : allowance.poll = some rest) (hm : sys.fireable m = []) :
    simulateFrom picker sys (n + 1) allowance s m done = ⟨done.reverse, true, none⟩ := by
  rw [simulateFrom, hpoll]
  simp only [hm]

/-- What the picker returns is looked up among the firings. -/
theorem simulateFrom_asked
    {position : Int} {s₁ : σ} (hpoll : allowance.poll = some rest) (hm : sys.fireable m ≠ [])
    (hpick : picker.pick s (sys.fireable m) = (position, s₁)) :
    simulateFrom picker sys (n + 1) allowance s m done =
      (if position < 0 then none else (sys.fireable m)[position.toNat]?).elim
        ⟨done.reverse, false, some (.badPick sys.name position (sys.fireable m).length)⟩
        fun step => simulateFrom picker sys n rest s₁ step.marking (step :: done) := by
  obtain ⟨first, others, hcons⟩ := List.exists_cons_of_ne_nil hm
  rw [hcons] at hpick
  rw [simulateFrom, hpoll]
  simp only [hcons, hpick]
  cases (if position < 0 then none else (first :: others)[position.toNat]?) with
  | none => rfl
  | some step => rfl

theorem simulateFrom_missed
    (hpoll : allowance.poll = some rest) (hmisses : picker.Misses sys s m) :
    simulateFrom picker sys (n + 1) allowance s m done =
      ⟨done.reverse, false, some (.badPick sys.name (picker.pick s (sys.fireable m)).1
        (sys.fireable m).length)⟩ := by
  have hnone : (if (picker.pick s (sys.fireable m)).1 < 0 then none
      else (sys.fireable m)[(picker.pick s (sys.fireable m)).1.toNat]?) = none := by
    rcases hmisses.outside with hlow | hhigh
    · rw [if_pos hlow]
    · rw [if_neg (by omega), List.getElem?_eq_none (by omega)]
  rw [simulateFrom_asked hpoll hmisses.fireable_ne_nil rfl, hnone, Option.elim_none]

theorem simulateFrom_picked
    {i : Nat} {s₁ : σ} {step : Step} (hpoll : allowance.poll = some rest)
    (hpick : picker.pick s (sys.fireable m) = ((i : Int), s₁))
    (hstep : (sys.fireable m)[i]? = some step) :
    simulateFrom picker sys (n + 1) allowance s m done =
      simulateFrom picker sys n rest s₁ step.marking (step :: done) := by
  have hm : sys.fireable m ≠ [] := List.ne_nil_of_mem (List.mem_of_getElem? hstep)
  rw [simulateFrom_asked hpoll hm hpick, if_neg (by omega), Int.toNat_natCast, hstep,
    Option.elim_some]

end Step

/-! ## Where a simulation stops -/

/-- How a simulation of up to `n` steps stops at the marking `m` after `fired`
firings: whether nothing is left to fire, and with which error. -/
inductive Stops (picker : Picker σ) (sys : CounterSystem) (n : Nat) (allowance : Allowance)
    (fired : Nat) (s : σ) (m : Marking) : Bool → Option SimulationError → Prop
  | spent (hfired : fired = n) :
      Stops picker sys n allowance fired s m (sys.fireable m).isEmpty none
  | stuck (hfired : fired < n) (hm : sys.fireable m = []) :
      Stops picker sys n allowance fired s m true none
  | cancelled (hfired : fired < n) (hpolls : allowance.polls = some fired) :
      Stops picker sys n allowance fired s m false (some .cancelled)
  | missed (hfired : fired < n) (hmisses : picker.Misses sys s m) :
      Stops picker sys n allowance fired s m false
        (some (.badPick sys.name (picker.pick s (sys.fireable m)).1 (sys.fireable m).length))

namespace Stops

variable {n fired : Nat} {allowance rest : Allowance} {s : σ} {m : Marking} {terminal : Bool}
  {error : Option SimulationError}

/-- Seen from one step before, the run stops one firing later. -/
theorem succ (hpoll : allowance.poll = some rest)
    (h : Stops picker sys n rest fired s m terminal error) :
    Stops picker sys (n + 1) allowance (fired + 1) s m terminal error := by
  cases h with
  | spent hfired => exact .spent (by omega)
  | stuck hfired hm => exact .stuck (by omega) hm
  | cancelled hfired hpolls =>
      refine .cancelled (by omega) ?_
      rw [Allowance.polls_of_poll_eq_some hpoll, hpolls, Option.map_some]
  | missed hfired hmisses => exact .missed (by omega) hmisses

theorem fired_le (h : Stops picker sys n allowance fired s m terminal error) : fired ≤ n := by
  cases h <;> omega

theorem terminal_iff (h : Stops picker sys n allowance fired s m terminal none) :
    terminal = true ↔ sys.fireable m = [] := by
  cases h with
  | spent => exact List.isEmpty_iff
  | stuck _ hm => simp [hm]

theorem terminal_of_lt (h : Stops picker sys n allowance fired s m terminal none)
    (hfired : fired < n) : terminal = true := by
  cases h with
  | spent hall => omega
  | stuck => rfl

/-- An error comes from a cancellation or from the picker, and in the middle of a
run. -/
theorem of_error (h : Stops picker sys n allowance fired s m terminal error)
    (herror : error ≠ none) :
    terminal = false ∧ fired < n ∧
      (error = some .cancelled ∧ allowance.polls = some fired ∨
        error = some (.badPick sys.name (picker.pick s (sys.fireable m)).1
          (sys.fireable m).length) ∧ picker.Misses sys s m) := by
  cases h with
  | spent => exact absurd rfl herror
  | stuck => exact absurd rfl herror
  | cancelled hfired hpolls => exact ⟨rfl, hfired, .inl ⟨rfl, hpolls⟩⟩
  | missed hfired hmisses => exact ⟨rfl, hfired, .inr ⟨rfl, hmisses⟩⟩

/-- A run is terminal only where nothing is fireable. -/
theorem fireable_eq_nil (h : Stops picker sys n allowance fired s m true error) :
    sys.fireable m = [] := by
  cases error with
  | none => exact h.terminal_iff.mp rfl
  | some e => exact absurd (h.of_error (Option.some_ne_none e)).1 (by decide)

end Stops

/-- A simulation fires what the picker chooses, up to the place where it stops. -/
theorem simulateFrom_spec
    (n : Nat) (allowance : Allowance) (s : σ) (m : Marking) (done : List Step) :
    ∃ firings s' m', picker.Chooses sys s m firings s' m' ∧
      (simulateFrom picker sys n allowance s m done).trace = done.reverse ++ firings ∧
      Stops picker sys n allowance firings.length s' m'
        (simulateFrom picker sys n allowance s m done).terminal
        (simulateFrom picker sys n allowance s m done).error := by
  induction n generalizing allowance s m done with
  | zero => exact ⟨[], s, m, .nil, (List.append_nil _).symm, .spent rfl⟩
  | succ n ih =>
      have hnow : ([] : List Step).length < n + 1 := Nat.succ_pos n
      cases hpoll : allowance.poll with
      | none =>
          rw [simulateFrom_cancelled hpoll]
          exact ⟨[], s, m, .nil, (List.append_nil _).symm,
            .cancelled hnow (Allowance.polls_of_poll_eq_none hpoll)⟩
      | some rest =>
          rcases picker.turn_cases sys s m with hm | hmisses | ⟨i, s₁, step, hpick, hstep⟩
          · rw [simulateFrom_stuck hpoll hm]
            exact ⟨[], s, m, .nil, (List.append_nil _).symm, .stuck hnow hm⟩
          · rw [simulateFrom_missed hpoll hmisses]
            exact ⟨[], s, m, .nil, (List.append_nil _).symm, .missed hnow hmisses⟩
          · rw [simulateFrom_picked hpoll hpick hstep]
            obtain ⟨firings, s', m', hchooses, htrace, hstops⟩ :=
              ih rest s₁ step.marking (step :: done)
            refine ⟨step :: firings, s', m', .cons hpick hstep hchooses, ?_, hstops.succ hpoll⟩
            rw [htrace, List.reverse_cons, List.append_assoc, List.singleton_append]

/-- A simulation that comes to a place where it is cancelled or where the picker
points outside breaks off there, or has done so before. -/
theorem error_of_chooses
    {n : Nat} {allowance : Allowance} {s s' : σ} {m m' : Marking} {firings done : List Step}
    (h : picker.Chooses sys s m firings s' m') (hfirings : firings.length < n)
    (hbreaks : allowance.polls = some firings.length ∨ picker.Misses sys s' m') :
    (simulateFrom picker sys n allowance s m done).error ≠ none := by
  induction h generalizing n allowance done with
  | nil =>
      obtain ⟨n, rfl⟩ := Nat.exists_eq_add_one_of_ne_zero (Nat.ne_of_gt hfirings)
      cases hpoll : allowance.poll with
      | none => simp [simulateFrom_cancelled hpoll]
      | some rest =>
          rcases hbreaks with hpolls | hmisses
          · simp [Allowance.polls_of_poll_eq_some hpoll] at hpolls
          · simp [simulateFrom_missed hpoll hmisses]
  | cons hpick hstep _ ih =>
      obtain ⟨n, rfl⟩ := Nat.exists_eq_add_one_of_ne_zero (Nat.ne_zero_of_lt hfirings)
      cases hpoll : allowance.poll with
      | none => simp [simulateFrom_cancelled hpoll]
      | some rest =>
          rw [simulateFrom_picked hpoll hpick hstep]
          refine ih (by simpa using hfirings) (hbreaks.imp_left fun hpolls => ?_)
          rw [Allowance.polls_of_poll_eq_some hpoll] at hpolls
          simpa using hpolls

/-- What a picker chooses within the number of steps begins a run that is never
cancelled. -/
theorem Picker.Chooses.isPrefix
    {n : Nat} {s s' : σ} {m m' : Marking} {firings : List Step}
    (h : picker.Chooses sys s m firings s' m') (hfirings : firings.length ≤ n)
    (done : List Step) :
    done.reverse ++ firings <+: (simulateFrom picker sys n .unlimited s m done).trace := by
  induction h generalizing n done with
  | nil =>
      obtain ⟨later, -, -, -, htrace, -⟩ := simulateFrom_spec n .unlimited _ _ done
      rw [List.append_nil, htrace]
      exact List.prefix_append _ _
  | @cons _ _ _ _ _ _ step rest hpick hstep _ ih =>
      obtain ⟨n, rfl⟩ := Nat.exists_eq_add_one_of_ne_zero (Nat.ne_zero_of_lt hfirings)
      rw [simulateFrom_picked Allowance.poll_unlimited hpick hstep]
      have hrest := ih (Nat.le_of_succ_le_succ hfirings) (step :: done)
      rwa [List.reverse_cons, List.append_assoc, List.singleton_append] at hrest

/-! ## Traces -/

theorem simulate_spec
    (picker : Picker σ) (sys : CounterSystem) (steps : Int) (allowance : Allowance) (s : σ)
    (start : Marking) :
    ∃ firings s' m', picker.Chooses sys s start firings s' m' ∧
      (simulate picker sys steps allowance s start).trace = ⟨startEntry, start⟩ :: firings ∧
      Stops picker sys steps.toNat allowance firings.length s' m'
        (simulate picker sys steps allowance s start).terminal
        (simulate picker sys steps allowance s start).error :=
  simulateFrom_spec steps.toNat allowance s start [⟨startEntry, start⟩]

/-- A run stays where it starts and is terminal exactly where nothing is fireable. -/
theorem simulate_stays_iff
    (picker : Picker σ) (sys : CounterSystem) (steps : Int) {allowance : Allowance} (s : σ)
    (start : Marking) (hallowance : allowance.isCancelled = false) :
    (simulate picker sys steps allowance s start).trace = [⟨startEntry, start⟩] ∧
        (simulate picker sys steps allowance s start).terminal = true ↔
      sys.fireable start = [] := by
  obtain ⟨firings, s', m', hchooses, htrace, hstops⟩ :=
    simulate_spec picker sys steps allowance s start
  rw [htrace]
  constructor
  · rintro ⟨hsingle, hterminal⟩
    obtain rfl : firings = [] := (List.cons.inj hsingle).2
    cases hchooses
    rw [hterminal] at hstops
    exact hstops.fireable_eq_nil
  · intro hstart
    obtain rfl := hchooses.eq_nil_of_stuck hstart
    cases hchooses
    refine ⟨rfl, ?_⟩
    cases herror : (simulate picker sys steps allowance s start).error with
    | none =>
        rw [herror] at hstops
        exact hstops.terminal_iff.mpr hstart
    | some e =>
        obtain ⟨-, -, ⟨-, hpolls⟩ | ⟨-, hmisses⟩⟩ := hstops.of_error (by simp [herror])
        · simp [Allowance.isCancelled, Allowance.poll, hpolls] at hallowance
        · exact absurd hstart hmisses.fireable_ne_nil

/-- A trace is a run of the system from the start, as far as the picker's choices
lead within the number of steps.  It breaks off exactly where the run is cancelled
at a step or the picker points outside, and it ends otherwise only where nothing
is fireable or no step is left. -/
theorem simulation_trace_run
    (picker : Picker σ) (sys : CounterSystem) (steps : Int) (allowance : Allowance) (s : σ)
    (start : Marking) :
    ∃ r, simulate picker sys steps allowance s start = r ∧
      r.trace.head? = some ⟨startEntry, start⟩ ∧ r.trace.length ≤ steps.toNat + 1 ∧
      (r.trace.IsChain fun a b => b ∈ sys.fireable a.marking) ∧
      (start.nonNegative = true → ∀ e ∈ r.trace, e.marking.nonNegative = true) ∧
      (r.error = none →
        (r.terminal = true ↔ sys.fireable r.last = []) ∧
        (r.trace.length < steps.toNat + 1 → r.terminal = true)) ∧
      (r.error ≠ none ↔ ∃ firings s' m', picker.Chooses sys s start firings s' m' ∧
        firings.length < steps.toNat ∧
        (allowance.polls = some firings.length ∨ picker.Misses sys s' m')) ∧
      (r.error ≠ none →
        r.terminal = false ∧
        r.trace <+: (simulate picker sys steps .unlimited s start).trace ∧
        ∃ firings s' m', picker.Chooses sys s start firings s' m' ∧
          r.trace = ⟨startEntry, start⟩ :: firings ∧
          (r.error = some .cancelled ∧ allowance.polls = some firings.length ∨
            r.error = some (.badPick sys.name (picker.pick s' (sys.fireable m')).1
              (sys.fireable m').length) ∧ picker.Misses sys s' m')) := by
  obtain ⟨r, hr⟩ : ∃ r, simulate picker sys steps allowance s start = r := ⟨_, rfl⟩
  obtain ⟨firings, s', m', hchooses, htrace, hstops⟩ :=
    simulate_spec picker sys steps allowance s start
  rw [hr] at htrace hstops
  have hlast : r.last = m' := by
    rw [Run.last, htrace, hchooses.getLast?_eq rfl, Option.getD_some]
  have hlength : r.trace.length = firings.length + 1 := by rw [htrace, List.length_cons]
  refine ⟨r, hr, by rw [htrace, List.head?_cons], ?length, ?chain, ?nonNegative, ?ended, ?error_iff,
    ?broken⟩
  case length =>
    have hle := hstops.fired_le
    omega
  case chain =>
    rw [htrace]
    exact hchooses.isChain rfl
  case nonNegative =>
    intro hstart
    rw [htrace]
    exact List.forall_mem_cons.mpr ⟨hstart, hchooses.nonNegative⟩
  case ended =>
    intro hnone
    rw [hnone] at hstops
    rw [hlast]
    exact ⟨hstops.terminal_iff, fun hshort => hstops.terminal_of_lt (by omega)⟩
  case error_iff =>
    constructor
    · intro herror
      obtain ⟨-, hlt, hcause⟩ := hstops.of_error herror
      exact ⟨firings, s', m', hchooses, hlt, hcause.imp (·.2) (·.2)⟩
    · rintro ⟨others, s₁, m₁, hothers, hlt, hbreaks⟩
      rw [← hr]
      exact error_of_chooses hothers hlt hbreaks
  case broken =>
    intro herror
    obtain ⟨hterminal, hlt, hcause⟩ := hstops.of_error herror
    refine ⟨hterminal, ?_, firings, s', m', hchooses, htrace, hcause⟩
    rw [htrace]
    exact hchooses.isPrefix hlt.le [⟨startEntry, start⟩]

end Population
