import Population.Encoding.Basic
import Population.Proofs.Composition.Sides
import Population.Proofs.CounterSystem.Reachability
import Population.Proofs.Encoding.Weights

/-!
# Firing the transitions of an encoding

The guarded transition of a global one replaces the multiset of states before by
the multiset of states after: it may fire where every state holds as many tokens
as it occurs before, and then each counter changes by the difference of its
occurrences.  This holds as long as no counter leaves the 64-bit range.  Joining
and departing are the same for single tokens.
-/

namespace Population

namespace GlobalTransition

theorem toInt_amount_of
    {env : Text} {agents : List Text} {s : Text} (h : (env :: agents).count s < 2 ^ 63) :
    ((Weights.of env agents).amount s).toInt = (env :: agents).count s := by
  rw [Weights.amount_of]
  exact Int64.toInt_ofNat_of_lt h

/-- A state that occurs less than 2^63 times weighs as much as it occurs. -/
theorem toInt_needs {g : GlobalTransition} {s : Text} (h : g.before.count s < 2 ^ 63) :
    (g.needs.amount s).toInt = g.before.count s :=
  toInt_amount_of h

theorem toInt_yields {g : GlobalTransition} {s : Text} (h : g.after.count s < 2 ^ 63) :
    (g.yields.amount s).toInt = g.after.count s :=
  toInt_amount_of h

end GlobalTransition

namespace Encoding

open Marking (Fits)

variable {g : GlobalTransition} {m : Marking}

/-! ## Weights as updates -/

/-- Adds `f` of its weight to every state. -/
def updatesOf (f : Int64 → Int64) (w : Weights) : Updates :=
  w.map fun e => ⟨e.1, f e.2⟩

theorem guarded_updates (name : Text) (g : GlobalTransition) :
    (guarded name g).updates = updatesOf (-·) g.needs ++ updatesOf id g.yields := rfl

theorem names_updatesOf (f : Int64 → Int64) (w : Weights) :
    (updatesOf f w).map (·.name) = w.states := by
  simp [updatesOf, Weights.states]

theorem net_updatesOf
    {f : Int64 → Int64} {w : Weights} (hnodup : w.states.Nodup) (s : Text) :
    (updatesOf f w).net s = if s ∈ w.states then (f (w.amount s)).toInt else 0 := by
  induction w with
  | nil => simp [updatesOf, Updates.net, Weights.states]
  | cons e rest ih =>
      obtain ⟨k, n⟩ := e
      obtain ⟨hfresh, hrest⟩ := List.nodup_cons.mp hnodup
      have htail := ih hrest
      have hcons : (updatesOf f ((k, n) :: rest)).net s =
          (if k = s then (f n).toInt else 0) + (updatesOf f rest).net s :=
        Updates.net_cons ⟨k, f n⟩ (updatesOf f rest) s
      rw [hcons, htail, Weights.amount_cons]
      simp only [Weights.mem_states_cons]
      by_cases hs : s = k
      · subst hs
        have hnot : s ∉ Weights.states rest := hfresh
        simp [hnot]
      · simp [hs, Ne.symm hs]

theorem mem_updatesOf {f : Int64 → Int64} {w : Weights} (hnodup : w.states.Nodup)
    {u : Update} (hu : u ∈ updatesOf f w) : u.delta = f (w.amount u.name) := by
  obtain ⟨⟨k, n⟩, hmem, rfl⟩ := List.mem_map.mp hu
  simp [Weights.amount_of_mem hnodup hmem]

theorem toInt_neg_of_nonneg {n : Int64} (h : 0 ≤ n.toInt) : (-n).toInt = -n.toInt := by
  rw [Int64.toInt_neg]
  have hlt := n.toInt_lt
  apply Int.bmod_eq_of_le <;> omega

theorem net_takes {s : Text} (h : g.before.count s < 2 ^ 63) :
    (updatesOf (-·) g.needs).net s = -(g.before.count s : Int) := by
  have hnodup : g.needs.states.Nodup := Weights.states_of_nodup _ _
  have hneeds := GlobalTransition.toInt_needs h
  rw [net_updatesOf hnodup]
  split
  · rw [toInt_neg_of_nonneg (by omega), hneeds]
  next hs =>
    have hzero : g.before.count s = 0 :=
      List.count_eq_zero.mpr fun h => hs (Weights.mem_states_of.mpr h)
    simp [hzero]

theorem net_gives {s : Text} (h : g.after.count s < 2 ^ 63) :
    (updatesOf id g.yields).net s = g.after.count s := by
  have hnodup : g.yields.states.Nodup := Weights.states_of_nodup _ _
  have hyields := GlobalTransition.toInt_yields h
  rw [net_updatesOf hnodup]
  split
  · exact hyields
  next hs =>
    have hzero : g.after.count s = 0 :=
      List.count_eq_zero.mpr fun h => hs (Weights.mem_states_of.mpr h)
    simp [hzero]

/-! ## Global transitions -/

/-- A marking has what a global transition takes. -/
def Covers (m : Marking) (g : GlobalTransition) : Prop :=
  ∀ s, (g.before.count s : Int) ≤ m.value s

/-- The guard of a global transition asks for what the transition takes. -/
theorem guarded_holds_iff
    (hg : ∀ s, g.before.count s < 2 ^ 63) (hm : ∀ s, 0 ≤ m.value s) (name : Text) :
    (guarded name g).guard.holds m = true ↔ Covers m g := by
  have hnodup : g.needs.states.Nodup := Weights.states_of_nodup _ _
  have hguard : (guarded name g).guard.holds m = true ↔
      ∀ e ∈ g.needs, e.2 ≤ m.get e.1 := by
    simp [guarded, Guard.holds, Comparison.holds, Comparator.holds]
  rw [hguard]
  constructor
  · intro h s
    by_cases hs : s ∈ g.before
    · have hmem := Weights.mem_of_mem_states hnodup (Weights.mem_states_of.mpr hs)
      have hle := Int64.le_iff_toInt_le.mp (h _ hmem)
      rwa [GlobalTransition.toInt_needs (hg s)] at hle
    · rw [List.count_eq_zero.mpr hs]
      exact hm s
  · rintro h ⟨s, n⟩ hmem
    have hn : n = g.needs.amount s := (Weights.amount_of_mem hnodup hmem).symm
    rw [Int64.le_iff_toInt_le, hn, GlobalTransition.toInt_needs (hg s)]
    exact h s

/-- What a marking covers fits into counters, as the marking does. -/
theorem Covers.count_before_lt (hcover : Covers m g) (s : Text) :
    g.before.count s < 2 ^ 63 := by
  have hle := hcover s
  have hlt := m.value_lt s
  omega

theorem Covers.count_after_lt
    (hcover : Covers m g)
    (hroom : ∀ s, m.value s - g.before.count s + g.after.count s < 2 ^ 63) (s : Text) :
    g.after.count s < 2 ^ 63 := by
  have hle := hcover s
  have hlt := hroom s
  omega

/-- No addition overflows when neither side of the step does. -/
theorem guarded_exact
    (hcover : Covers m g)
    (hroom : ∀ s, m.value s - g.before.count s + g.after.count s < 2 ^ 63)
    (name : Text) : (guarded name g).updates.Exact m := by
  have hneeds : g.needs.states.Nodup := Weights.states_of_nodup _ _
  have hyields : g.yields.states.Nodup := Weights.states_of_nodup _ _
  rw [guarded_updates, Updates.exact_append]
  have htakes : (updatesOf (-·) g.needs).Exact m := by
    apply Updates.exact_of_nodup
    · rw [names_updatesOf]
      exact hneeds
    · intro u hu
      have hamount := GlobalTransition.toInt_needs (hcover.count_before_lt u.name)
      have hle := hcover u.name
      have hlt := m.value_lt u.name
      rw [mem_updatesOf hneeds hu, toInt_neg_of_nonneg (by omega), hamount]
      constructor <;> omega
  refine ⟨htakes, ?_⟩
  apply Updates.exact_of_nodup
  · rw [names_updatesOf]
    exact hyields
  · intro u hu
    have hle := hcover u.name
    have hlt := hroom u.name
    have hmiddle := Updates.value_apply htakes u.name
    rw [net_takes (hcover.count_before_lt u.name)] at hmiddle
    rw [mem_updatesOf hyields hu, id,
      GlobalTransition.toInt_yields (hcover.count_after_lt hroom u.name), hmiddle]
    constructor <;> omega

/-- Firing a global transition replaces one multiset of states by another. -/
theorem value_apply_guarded
    (hbefore : ∀ s, g.before.count s < 2 ^ 63) (hafter : ∀ s, g.after.count s < 2 ^ 63)
    {name : Text} (h : (guarded name g).updates.Exact m) (s : Text) :
    ((guarded name g).updates.apply m).value s =
      m.value s - g.before.count s + g.after.count s := by
  rw [Updates.value_apply h, guarded_updates, Updates.net_append, net_takes (hbefore s),
    net_gives (hafter s)]
  omega

theorem mem_domain_apply_guarded {name : Text} {s : Text} :
    s ∈ ((guarded name g).updates.apply m).domain ↔
      s ∈ m.domain ∨ s ∈ g.before ∨ s ∈ g.after := by
  rw [Updates.mem_domain_apply, guarded_updates, List.map_append, names_updatesOf,
    names_updatesOf, List.mem_append]
  rw [show s ∈ g.needs.states ↔ s ∈ g.before from Weights.mem_states_of]
  rw [show s ∈ g.yields.states ↔ s ∈ g.after from Weights.mem_states_of]

/-! ## Joining and departing -/

/-- Adds `delta` agents to a state and to the active ones. -/
def headcount (s : Text) (delta : Int64) : Updates :=
  [⟨s, delta⟩, ⟨reservedName, delta⟩]

theorem spawn_updates (d : Description) (bound : Int64) :
    (spawn d bound).updates = headcount d.agent.initial 1 := rfl

theorem leave_updates (d : Description) :
    (leave d).updates = headcount d.agent.leave (-1) := rfl

theorem spawn_holds_iff {d : Description} {bound : Int64} :
    (spawn d bound).guard.holds m = true ↔ m.value reservedName < bound.toInt := by
  simp [spawn, Guard.holds, Comparison.holds, Comparator.holds, Marking.value,
    Int64.lt_iff_toInt_lt]

theorem leave_holds_iff {d : Description} :
    (leave d).guard.holds m = true ↔ 0 < m.value d.agent.leave := by
  have hguard : (leave d).guard.holds m = true ↔ 0 < m.get d.agent.leave := by
    simp [leave, Guard.holds, Comparison.holds, Comparator.holds]
  rw [hguard]
  exact Int64.lt_iff_toInt_lt

theorem headcount_exact
    {s : Text} {delta : Int64} (hs : s ≠ reservedName)
    (hstate : Fits (m.value s + delta.toInt))
    (hactive : Fits (m.value reservedName + delta.toInt)) :
    (headcount s delta).Exact m := by
  apply Updates.exact_of_nodup
  · simp [headcount, hs]
  · intro u hu
    simp only [headcount, List.mem_cons, List.not_mem_nil, or_false] at hu
    rcases hu with rfl | rfl
    · exact hstate
    · exact hactive

theorem value_apply_headcount
    {s : Text} {delta : Int64} (h : (headcount s delta).Exact m) (x : Text) :
    ((headcount s delta).apply m).value x = m.value x +
      ((if s = x then delta.toInt else 0) +
        if reservedName = x then delta.toInt else 0) := by
  rw [Updates.value_apply h, headcount, Updates.net_cons, Updates.net_cons]
  simp [Updates.net]

theorem mem_domain_apply_headcount {s x : Text} {delta : Int64} :
    x ∈ ((headcount s delta).apply m).domain ↔
      x ∈ m.domain ∨ x = s ∨ x = reservedName := by
  rw [Updates.mem_domain_apply]
  simp [headcount]

end Encoding

end Population
