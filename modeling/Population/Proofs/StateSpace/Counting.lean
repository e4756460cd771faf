import Population.Proofs.StateSpace.Exploration

/-!
# Counting states

Markings that agree are one state, so the number of states is counted by lists of
reachable markings no two of which are the same.  A discovery is such a list, and
when all of its states are expanded there is no longer one.
-/

namespace Population

/-- Reachable markings no two of which are the same. -/
structure CounterSystem.DistinctStates (sys : CounterSystem) (ms : List Marking) : Prop where
  reachable : ∀ m ∈ ms, sys.Reachable m
  distinct : ms.Pairwise fun a b => a.same b = false

/-- No more than `n` different markings are reachable. -/
def CounterSystem.AtMostStates (sys : CounterSystem) (n : Nat) : Prop :=
  ∀ ms, sys.DistinctStates ms → ms.length ≤ n

namespace Discovery

open Marking (Agree)

/-- The markings by number. -/
def markings (d : Discovery) : List Marking :=
  d.nodes.toList.map (·.marking)

variable {sys : CounterSystem} {d : Discovery} {head : Nat} {m : Marking}

theorem length_markings : d.markings.length = d.size := by
  rw [markings, List.length_map, Array.length_toList, size]

theorem getElem?_markings (id : Nat) : d.markings[id]? = d.marking? id := by
  rw [markings, List.getElem?_map, Array.getElem?_toList, marking?]

theorem mem_markings_iff : m ∈ d.markings ↔ ∃ id, d.marking? id = some m := by
  simp only [List.mem_iff_getElem?, getElem?_markings]

namespace Explored

/-- A discovery lists states. -/
theorem distinctStates (h : d.Explored sys head) : sys.DistinctStates d.markings where
  reachable m hm := by
    obtain ⟨id, hid⟩ := mem_markings_iff.mp hm
    exact h.reachable hid
  distinct := by
    rw [List.pairwise_iff_getElem]
    intro i j hi hj hij
    refine Marking.same_eq_false_of_not_agree fun hagree => ?_
    have hfirst : d.marking? i = some d.markings[i] := by
      rw [← getElem?_markings, List.getElem?_eq_getElem hi]
    have hsecond : d.marking? j = some d.markings[j] := by
      rw [← getElem?_markings, List.getElem?_eq_getElem hj]
    exact Nat.ne_of_lt hij (h.eq_of_agree hfirst hsecond hagree)

/-- A marking that is not known is one more state. -/
theorem distinctStates_cons
    (h : d.Explored sys head) (hm : sys.Reachable m) (hnew : d.find? m = none) :
    sys.DistinctStates (m :: d.markings) where
  reachable := List.forall_mem_cons.mpr ⟨hm, h.distinctStates.reachable⟩
  distinct := by
    refine List.pairwise_cons.mpr ⟨?_, h.distinctStates.distinct⟩
    intro m' hm'
    obtain ⟨id, hid⟩ := mem_markings_iff.mp hm'
    refine Marking.same_eq_false_of_not_agree fun hagree => ?_
    rw [h.find?_eq_of_agree hid hagree] at hnew
    exact Option.some_ne_none id hnew

/-- When every state is expanded there are no others. -/
theorem atMostStates (hs : sys.WellNamed) (h : d.Explored sys d.size) :
    sys.AtMostStates d.size := by
  intro ms hms
  have hknown : ∀ m ∈ ms, ∃ id, d.find? m = some id := fun m hm =>
    h.exists_find?_of_reachable hs (hms.reachable m hm)
  -- Different markings have different numbers, and all numbers are below the size.
  have hnodup : (ms.map fun m => (d.find? m).getD 0).Nodup := by
    refine List.pairwise_map.mpr (hms.distinct.imp_of_mem ?_)
    intro a b ha hb hne heq
    obtain ⟨i, hi⟩ := hknown a ha
    obtain ⟨j, hj⟩ := hknown b hb
    simp only [hi, hj, Option.getD_some] at heq
    subst heq
    obtain ⟨a', ha', hagree⟩ := h.exists_agree hs (hms.reachable a ha) hi
    obtain ⟨b', hb', hagree'⟩ := h.exists_agree hs (hms.reachable b hb) hj
    rw [ha'] at hb'
    cases hb'
    exact Marking.not_agree_of_same_eq_false hne (hagree.trans hagree'.symm)
  have hbelow : (ms.map fun m => (d.find? m).getD 0) ⊆ List.range d.size := by
    intro id hid
    obtain ⟨m, hm, rfl⟩ := List.mem_map.mp hid
    obtain ⟨i, hi⟩ := hknown m hm
    obtain ⟨m', hm', -⟩ := h.exists_agree hs (hms.reachable m hm) hi
    rw [hi, Option.getD_some, List.mem_range]
    exact lt_size_of_marking? hm'
  have hlength := (List.subperm_of_subset hnodup hbelow).length_le
  rwa [List.length_map, List.length_range] at hlength

end Explored

end Discovery

end Population
