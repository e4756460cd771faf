import Population.Guard
import Population.Proofs.Marking.Basic
import Mathlib.Algebra.BigOperators.Group.List.Basic
import Mathlib.Algebra.Ring.Int.Defs

/-!
# Exact updates

Counters have 64 bits and additions wrap around.  A sequence of updates is
exact at a marking when no addition that it carries out leaves the 64-bit
range, the additions in the middle of the sequence included.  Then every
counter changes by the sum of the amounts that are added to it.
-/

namespace Population.Updates

open Marking (Fits)

/-- No addition that the updates carry out from `m` overflows. -/
def Exact : Updates → Marking → Prop
  | [], _ => True
  | u :: us, m =>
    (m.get u.name + u.delta).toInt = m.value u.name + u.delta.toInt ∧
      Exact us (m.add u.name u.delta)

/-- What the updates add to a counter in all. -/
def net (us : Updates) (n : Text) : Int :=
  ((us.filter fun u => u.name = n).map fun u => u.delta.toInt).sum

theorem net_cons (u : Update) (us : Updates) (n : Text) :
    net (u :: us) n = (if u.name = n then u.delta.toInt else 0) + net us n := by
  by_cases h : u.name = n <;> simp [net, h]

theorem net_append (us vs : Updates) (n : Text) :
    net (us ++ vs) n = net us n + net vs n := by
  simp [net]

theorem exact_append {us vs : Updates} {m : Marking} :
    Exact (us ++ vs) m ↔ Exact us m ∧ Exact vs (apply us m) := by
  induction us generalizing m with
  | nil => simp [Exact]
  | cons u us ih =>
      simp only [List.cons_append, Exact, apply_cons, ih]
      tauto

/-- Exact updates add to each counter what they say. -/
theorem value_apply {us : Updates} {m : Marking} (h : Exact us m) (n : Text) :
    (apply us m).value n = m.value n + net us n := by
  induction us generalizing m with
  | nil => simp [net]
  | cons u us ih =>
      obtain ⟨hfirst, hrest⟩ := h
      rw [apply_cons, ih hrest, net_cons]
      by_cases hn : n = u.name
      · subst hn
        have hvalue : (m.add u.name u.delta).value u.name =
            m.value u.name + u.delta.toInt := by
          rw [Marking.value, Marking.get_add, if_pos rfl, hfirst]
        rw [hvalue, if_pos rfl]
        omega
      · have hvalue : (m.add u.name u.delta).value n = m.value n := by
          rw [Marking.value, Marking.get_add, if_neg hn, Marking.value]
        rw [hvalue, if_neg (Ne.symm hn)]
        omega

/-- Updates of different counters are exact when each of them is. -/
theorem exact_of_nodup
    {us : Updates} {m : Marking} (hnodup : (us.map (·.name)).Nodup)
    (hfits : ∀ u ∈ us, Fits (m.value u.name + u.delta.toInt)) : Exact us m := by
  induction us generalizing m with
  | nil => trivial
  | cons u us ih =>
      rw [List.map_cons, List.nodup_cons] at hnodup
      refine ⟨Marking.toInt_add_of_fits (hfits u List.mem_cons_self), ?_⟩
      apply ih hnodup.2
      intro v hv
      have hne : v.name ≠ u.name := by
        intro heq
        exact hnodup.1 (List.mem_map.mpr ⟨v, hv, heq⟩)
      rw [Marking.value, Marking.get_add, if_neg hne]
      exact hfits v (List.mem_cons_of_mem u hv)

/-- Updates create the counters that they name and remove none. -/
theorem mem_domain_apply {us : Updates} {m : Marking} {n : Text} :
    n ∈ (apply us m).domain ↔ n ∈ m.domain ∨ n ∈ us.map (·.name) := by
  induction us generalizing m with
  | nil => simp
  | cons u us ih =>
      rw [apply_cons, ih, Marking.mem_domain_add, List.map_cons, List.mem_cons]
      tauto

/-- Additions wrap around, so their order does not matter. -/
theorem add_right_comm (m : Marking) (u v : Update) :
    (m.add u.name u.delta).add v.name v.delta = (m.add v.name v.delta).add u.name u.delta := by
  apply Marking.ext_of_domain
  · intro n
    simp only [Marking.mem_domain_add]
    tauto
  · intro n
    simp only [Marking.get_add]
    by_cases huv : u.name = v.name
    · rw [huv]
      simp only [if_true]
      split
      · rw [Int64.add_assoc, Int64.add_assoc, Int64.add_comm u.delta]
      · rfl
    · have hvu : v.name ≠ u.name := Ne.symm huv
      simp only [if_neg huv, if_neg hvu]
      by_cases hn : n = v.name
      · rw [if_pos hn, if_neg (hn ▸ hvu), if_pos hn]
      · rw [if_neg hn, if_neg hn]

/-- Updates have one outcome in any order, overflow included. -/
theorem apply_perm {us vs : Updates} (h : us.Perm vs) (m : Marking) :
    apply us m = apply vs m :=
  h.foldl_eq' (fun u _ v _ m => add_right_comm m u v) m

end Population.Updates
