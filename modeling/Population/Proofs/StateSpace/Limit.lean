import Population.Proofs.StateSpace.Graph
import Population.Proofs.StateSpace.Search

/-!
# The limit on states

Both explorers are given the same limit, but they test it at different points.  A
search tests it when it comes upon a new marking, so it comes to an end when there
are at most as many states as the limit says.  An exploration tests it before it
expands a state, and so it comes to an end only when there are fewer.  The two
differ for a system that has exactly so many states.
-/

namespace Population

namespace CounterSystem

variable {sys : CounterSystem} {k n : Nat}

/-- Fewer than `n` different markings are reachable. -/
def FewerStates (sys : CounterSystem) (n : Nat) : Prop :=
  ∃ k < n, sys.AtMostStates k

/-- As many as `n` different markings are reachable, and no more. -/
def HasStates (sys : CounterSystem) (n : Nat) : Prop :=
  sys.AtMostStates n ∧ ∃ ms, sys.DistinctStates ms ∧ ms.length = n

theorem AtMostStates.mono (h : sys.AtMostStates k) (hkn : k ≤ n) : sys.AtMostStates n :=
  fun ms hms => Nat.le_trans (h ms hms) hkn

theorem not_fewerStates_of_distinct
    {ms : List Marking} (hms : sys.DistinctStates ms) (hn : n ≤ ms.length) :
    ¬sys.FewerStates n := by
  rintro ⟨k, hk, hmost⟩
  have hle := hmost ms hms
  omega

theorem atMostStates_iff : sys.AtMostStates n ↔ sys.FewerStates n ∨ sys.HasStates n := by
  constructor
  · intro h
    by_cases hfull : ∃ ms, sys.DistinctStates ms ∧ ms.length = n
    · exact .inr ⟨h, hfull⟩
    · have hempty : sys.DistinctStates [] := ⟨by simp, .nil⟩
      have hpos : n ≠ 0 := fun hzero => hfull ⟨[], hempty, hzero.symm⟩
      refine .inl ⟨n - 1, by omega, fun ms hms => ?_⟩
      have hle := h ms hms
      have hne : ms.length ≠ n := fun heq => hfull ⟨ms, hms, heq⟩
      omega
  · rintro (⟨k, hk, hmost⟩ | ⟨hmost, -⟩)
    · exact hmost.mono (Nat.le_of_lt hk)
    · exact hmost

/-- Having fewer states and having at most so many differ at the bound only. -/
theorem fewerStates_iff_atMostStates_iff :
    (sys.FewerStates n ↔ sys.AtMostStates n) ↔ ¬sys.HasStates n := by
  rw [atMostStates_iff]
  constructor
  · rintro h ⟨hmost, ms, hms, hlength⟩
    have hfewer := h.mpr (.inr ⟨hmost, ms, hms, hlength⟩)
    exact not_fewerStates_of_distinct hms hlength.ge hfewer
  · intro hnot
    rw [or_iff_left hnot]

end CounterSystem

open Discovery

variable {sys : CounterSystem} {limit : Nat}

/-- When an exploration comes to an end. -/
theorem StateSpace.build_stop
    (hs : sys.WellNamed) (hlimit : 1 ≤ limit) :
    (build sys limit .unlimited).2 = none ∧ sys.FewerStates limit ∨
      (build sys limit .unlimited).2 = some (.limit limit) ∧ ¬sys.FewerStates limit := by
  obtain ⟨hcharted, hends⟩ := build_spec sys hlimit .unlimited
  generalize build sys limit .unlimited = outcome at hcharted hends ⊢
  obtain ⟨s, stop⟩ := outcome
  cases stop with
  | none =>
      obtain ⟨-, hall, hroom⟩ := hends
      have hexplored := hcharted.explored
      rw [hall] at hexplored
      exact .inl ⟨rfl, s.size, hroom, hexplored.atMostStates hs⟩
  | some why =>
      cases why with
      | limit n =>
          obtain ⟨-, rfl, hfull⟩ := hends
          have hlength : n ≤ s.found.markings.length := by
            rw [length_markings]
            exact hfull
          exact .inr ⟨rfl, CounterSystem.not_fewerStates_of_distinct
            hcharted.explored.distinctStates hlength⟩
      | cancelled => exact absurd hends.2 (by simp [Allowance.unlimited])

/-- When a search for nothing comes to an end. -/
theorem reach_stop
    (hs : sys.WellNamed) (hlimit : 1 ≤ limit) :
    (reach sys limit .unlimited fun _ => false).2 = none ∧ sys.AtMostStates limit ∨
      (reach sys limit .unlimited fun _ => false).2 = some (.limit limit) ∧
        ¬sys.AtMostStates limit := by
  obtain ⟨hsize, hsettles⟩ := search_spec sys hlimit .unlimited fun _ => false
  rw [reach_eq]
  generalize search sys limit .unlimited (fun _ => false) = outcome at hsize hsettles ⊢
  obtain ⟨d, e⟩ := outcome
  cases e with
  | found id =>
      obtain ⟨m, -, hwanted⟩ := hsettles.wanted_last
      exact absurd hwanted (by simp)
  | excluded => exact .inl ⟨rfl, (hsettles.1.atMostStates hs).mono hsize⟩
  | stopped why =>
      cases why with
      | limit n =>
          obtain ⟨rfl, hfull, head, hexplored, m, hm, hnew⟩ := hsettles
          refine .inr ⟨rfl, fun hmost => ?_⟩
          have hle := hmost _ (hexplored.distinctStates_cons hm hnew)
          rw [List.length_cons, length_markings, hfull] at hle
          exact Nat.not_succ_le_self n hle
      | cancelled => exact absurd rfl hsettles

/-- An exploration comes to an end when there are fewer states than the limit says
and a search for nothing when there are at most so many, so they differ exactly
for systems with that number of states. -/
theorem limits_differ_iff
    {sys : CounterSystem} (hsys : sys.Obtained) {n : Nat} (hn : 1 ≤ n) :
    ∃ s stop result stop',
      StateSpace.build sys (stateLimit n) .unlimited = (s, stop) ∧
        reach sys (stateLimit n) .unlimited (fun _ => false) = (result, stop') ∧
        (stop = none ∨ stop = some (.limit n)) ∧ (stop' = none ∨ stop' = some (.limit n)) ∧
        (stop = none ↔ sys.FewerStates n) ∧ (stop' = none ↔ sys.AtMostStates n) ∧
        (¬(stop = none ↔ stop' = none) ↔ sys.HasStates n) := by
  have hs := hsys.wellNamed
  have hlimit : stateLimit n = n := if_neg (by omega)
  have hbuild := StateSpace.build_stop hs hn
  have hreach := reach_stop hs hn
  rw [hlimit]
  obtain ⟨s, stop, heq⟩ : ∃ s stop, StateSpace.build sys n .unlimited = (s, stop) := ⟨_, _, rfl⟩
  obtain ⟨result, stop', heq'⟩ :
      ∃ result stop', reach sys n .unlimited (fun _ => false) = (result, stop') := ⟨_, _, rfl⟩
  rw [heq] at hbuild
  rw [heq'] at hreach
  have hends : stop = none ↔ sys.FewerStates n := by
    rcases hbuild with ⟨rfl, h⟩ | ⟨rfl, h⟩ <;> simp [h]
  have hends' : stop' = none ↔ sys.AtMostStates n := by
    rcases hreach with ⟨rfl, h⟩ | ⟨rfl, h⟩ <;> simp [h]
  refine ⟨s, stop, result, stop', heq, heq', hbuild.imp And.left And.left,
    hreach.imp And.left And.left, hends, hends', ?_⟩
  rw [hends, hends', CounterSystem.fewerStates_iff_atMostStates_iff, not_not]

theorem limits_differ_iff_lift :
    ∃ sys, CounterSystem.read liftText = .ok sys ∧ sys.Obtained ∧ 1 ≤ 3 ∧
      ∃ s stop result stop',
        StateSpace.build sys (stateLimit (3 : Nat)) .unlimited = (s, stop) ∧
          reach sys (stateLimit (3 : Nat)) .unlimited (fun _ => false) = (result, stop') ∧
          (stop = none ∨ stop = some (.limit 3)) ∧ (stop' = none ∨ stop' = some (.limit 3)) ∧
          (stop = none ↔ sys.FewerStates 3) ∧ (stop' = none ↔ sys.AtMostStates 3) ∧
          (¬(stop = none ↔ stop' = none) ↔ sys.HasStates 3) := by
  obtain ⟨sys, hread⟩ := exists_read_liftText
  exact ⟨sys, hread, .read hread, by decide, limits_differ_iff (.read hread) (by decide)⟩

/-- Two cars on two floors have three states, and with a limit of three a search
for nothing comes to an end while an exploration does not. -/
theorem lift_stops_exploration_only :
    ∃ sys, CounterSystem.read liftText = .ok sys ∧ sys.Obtained ∧ sys.AtMostStates 3 ∧
      (StateSpace.build sys (stateLimit 3) .unlimited).2 = some (.limit 3) ∧
      (reach sys (stateLimit 3) .unlimited fun _ => false).2 = none := by
  obtain ⟨sys, hread, hrun⟩ := Description.exists_eq_ok_of_any
    (x := CounterSystem.read liftText)
    (p := fun sys =>
      decide ((StateSpace.build sys (stateLimit 3) .unlimited).2 = some (.limit 3) ∧
        (reach sys (stateLimit 3) .unlimited fun _ => false).2 = none)) (by decide +kernel)
  obtain ⟨hbuild, hreach⟩ := of_decide_eq_true hrun
  have hsys : sys.Obtained := .read hread
  have hmost : sys.AtMostStates 3 := by
    rcases reach_stop hsys.wellNamed (by decide : 1 ≤ stateLimit 3) with ⟨-, h⟩ | ⟨hstop, -⟩
    · exact h
    · rw [hreach] at hstop
      exact absurd hstop (by simp)
  exact ⟨sys, hread, hsys, hmost, hbuild, hreach⟩

end Population
