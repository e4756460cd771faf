import Population.Proofs.CounterSystem.Agreement
import Population.Proofs.CounterSystem.Naming
import Population.Proofs.StateSpace.Witness
import Mathlib.Data.List.Induction

/-!
# Breadth-first exploration

States are expanded in the order of their numbers, and a new marking gets the
next number.  So the states that are expanded form an initial segment, parents
ascend with the numbers of their children, and depths do as well.  From this
follows that no firing sequence leads to a discovered state in fewer firings than
the recorded one, however far the exploration has come, and that a marking which
is reached by fewer firings than lead to the next state to expand is discovered.
-/

namespace Population

theorem stateLimit_pos (given : Int) : 1 ≤ stateLimit given := by
  unfold stateLimit
  split <;> omega

namespace Discovery

open Marking (Agree)

/-- The state with that number stands for the marking. -/
def Holds (d : Discovery) (id : Nat) (m : Marking) : Prop :=
  ∃ n : Node, d.nodes[id]? = some n ∧ n.marking.key = m.key

/-- The states below `head` are expanded, and nothing else has been looked at but
firings from the state `head`. -/
structure Explored (sys : CounterSystem) (head : Nat) (d : Discovery) : Prop where
  traced : d.Traced sys
  find_iff : ∀ m id, d.find? m = some id ↔ d.Holds id m
  head_le : head ≤ d.size
  parent_le : ∀ (id : Nat) (n : Node), d.nodes[id]? = some n → n.parent ≤ head
  parent_mono : ∀ (i j : Nat) (a b : Node), i ≤ j → d.nodes[i]? = some a → d.nodes[j]? = some b →
    a.parent ≤ b.parent
  closed : ∀ i < head, ∀ m, d.marking? i = some m → ∀ step ∈ sys.fireable m,
    ∃ (id : Nat) (n : Node), d.nodes[id]? = some n ∧ n.marking.key = step.marking.key ∧
      n.parent ≤ i

variable {sys : CounterSystem} {d : Discovery} {head : Nat} {m : Marking}

theorem node_start {initial : Marking} {id : Nat} {n : Node}
    (h : (start initial).nodes[id]? = some n) : id = 0 ∧ n = ⟨initial, 0, []⟩ := by
  have hlt := lt_size_of_node h
  simp only [size, start, List.size_toArray, List.length_singleton] at hlt
  obtain rfl : id = 0 := by omega
  simp only [start, List.getElem?_toArray, List.getElem?_cons_zero, Option.some.injEq] at h
  exact ⟨rfl, h.symm⟩

theorem explored_start (sys : CounterSystem) : (start sys.initial).Explored sys 0 where
  traced := traced_start sys
  find_iff m id := by
    have hfind : (start sys.initial).find? m =
        if sys.initial.key = m.key then some 0 else none := by
      rw [find?, start, Std.TreeMap.getElem?_insert]
      simp
    rw [hfind]
    constructor
    · intro h
      split at h
      next hkey =>
        cases h
        exact ⟨⟨sys.initial, 0, []⟩, rfl, hkey⟩
      next => simp at h
    · rintro ⟨n, hn, hkey⟩
      obtain ⟨rfl, rfl⟩ := node_start hn
      rw [if_pos hkey]
  head_le := Nat.zero_le _
  parent_le id n hn := by
    obtain ⟨-, rfl⟩ := node_start hn
    exact Nat.le_refl 0
  parent_mono i j a b _ ha hb := by
    obtain ⟨-, rfl⟩ := node_start ha
    exact Nat.zero_le _
  closed i hi := absurd hi (Nat.not_lt_zero i)

/-- Every state keeps its number. -/
def Extends (d d' : Discovery) : Prop :=
  ∀ (id : Nat) (n : Node), d.nodes[id]? = some n → d'.nodes[id]? = some n

theorem Extends.refl (d : Discovery) : d.Extends d :=
  fun _ _ hn => hn

theorem Extends.trans {d' d'' : Discovery} (h : d.Extends d') (h' : d'.Extends d'') :
    d.Extends d'' :=
  fun id n hn => h' id n (h id n hn)

theorem extends_add (source : Nat) (step : Step) : d.Extends (d.add source step) := by
  intro id n hn
  rw [nodes_add_of_lt (lt_size_of_node hn), hn]

theorem Extends.marking?_eq {d' : Discovery} (h : d.Extends d') {id : Nat}
    (hm : d.marking? id = some m) : d'.marking? id = some m := by
  obtain ⟨n, hn, rfl⟩ := marking?_eq_some_iff.mp hm
  exact marking?_eq_some_iff.mpr ⟨n, h id n hn, rfl⟩

theorem Extends.holds {d' : Discovery} (h : d.Extends d') {id : Nat} (hm : d.Holds id m) :
    d'.Holds id m := by
  obtain ⟨n, hn, hkey⟩ := hm
  exact ⟨n, h id n hn, hkey⟩

theorem Extends.size_le {d' : Discovery} (h : d.Extends d') : d.size ≤ d'.size := by
  by_contra hlt
  obtain ⟨n, hn⟩ := exists_node_of_lt (Nat.not_le.mp hlt)
  exact Nat.lt_irrefl d'.size (lt_size_of_node (h d'.size n hn))

/-- The states below the size are the same ones. -/
theorem Extends.marking?_eq_of_lt
    {d' : Discovery} (h : d.Extends d') {id : Nat} (hid : id < d.size) :
    d'.marking? id = d.marking? id := by
  obtain ⟨n, hn⟩ := exists_node_of_lt hid
  rw [marking?, marking?, hn, h id n hn]

/-- What is discovered later does not change how a state was discovered. -/
theorem Traced.pathTo_eq_of_extends
    (h : d.Traced sys) {d' : Discovery} (h' : d'.Traced sys) (hext : d.Extends d') {id : Nat}
    (hid : id < d.size) : d'.pathTo id = d.pathTo id := by
  induction id using Nat.strongRecOn with
  | ind id ih =>
      by_cases hzero : id = 0
      · rw [hzero, pathTo, pathTo, pathFrom_zero, pathFrom_zero]
      · have hpos : 0 < id := Nat.pos_of_ne_zero hzero
        obtain ⟨n, hn⟩ := exists_node_of_lt hid
        obtain ⟨hparent, -⟩ := h.edge id n hpos hn
        rw [h.pathTo_eq_concat hpos hn, h'.pathTo_eq_concat hpos (hext id n hn),
          ih n.parent hparent (Nat.lt_trans hparent hid)]

theorem find?_add (source : Nat) (step : Step) (m : Marking) :
    (d.add source step).find? m =
      if step.marking.key = m.key then some d.size else d.find? m := by
  rw [find?, add, Std.TreeMap.getElem?_insert]
  simp [find?, size]

namespace Explored

/-- A firing from the state `head` leads to a marking that is not known yet. -/
theorem add
    (h : d.Explored sys head) (hhead : d.marking? head = some m) {step : Step}
    (hstep : step ∈ sys.fireable m) (hnew : d.find? step.marking = none) :
    (d.add head step).Explored sys head where
  traced := h.traced.add hhead hstep
  find_iff m' id := by
    rw [find?_add]
    constructor
    · intro hfind
      split at hfind
      next hkey =>
        cases hfind
        exact ⟨_, nodes_add_size head step, hkey⟩
      next =>
        exact (extends_add head step).holds ((h.find_iff m' id).mp hfind)
    · rintro ⟨n, hn, hkey⟩
      rcases node_cases_of_add hn with hn | ⟨rfl, rfl⟩
      · have hne : step.marking.key ≠ m'.key := by
          intro heq
          have hknown := (h.find_iff step.marking id).mpr ⟨n, hn, hkey.trans heq.symm⟩
          simp [hnew] at hknown
        rw [if_neg hne]
        exact (h.find_iff m' id).mpr ⟨n, hn, hkey⟩
      · rw [if_pos hkey]
  head_le := by
    rw [size_add]
    exact Nat.le_succ_of_le h.head_le
  parent_le id n hn := by
    rcases node_cases_of_add hn with hn | ⟨-, rfl⟩
    · exact h.parent_le id n hn
    · exact Nat.le_refl head
  parent_mono i j a b hij ha hb := by
    rcases node_cases_of_add hb with hb | ⟨-, rfl⟩
    · have hi : i < d.size := Nat.lt_of_le_of_lt hij (lt_size_of_node hb)
      rw [nodes_add_of_lt hi] at ha
      exact h.parent_mono i j a b hij ha hb
    · rcases node_cases_of_add ha with ha | ⟨-, rfl⟩
      · exact h.parent_le i a ha
      · exact Nat.le_refl head
  closed i hi m' hm' step' hstep' := by
    have hsize : i < d.size := Nat.lt_of_lt_of_le hi h.head_le
    rw [marking?_add_of_lt hsize] at hm'
    obtain ⟨id, n, hn, hkey, hparent⟩ := h.closed i hi m' hm' step' hstep'
    exact ⟨id, n, extends_add head step id n hn, hkey, hparent⟩

/-- All firings from the state `head` lead to known markings, so it is expanded. -/
theorem advance
    (h : d.Explored sys head) (hhead : d.marking? head = some m)
    (hknown : ∀ step ∈ sys.fireable m, ∃ id, d.find? step.marking = some id) :
    d.Explored sys (head + 1) where
  traced := h.traced
  find_iff := h.find_iff
  head_le := lt_size_of_marking? hhead
  parent_le id n hn := Nat.le_succ_of_le (h.parent_le id n hn)
  parent_mono := h.parent_mono
  closed i hi m' hm' step hstep := by
    by_cases hlt : i < head
    · exact h.closed i hlt m' hm' step hstep
    · obtain rfl : i = head := by omega
      rw [hhead] at hm'
      cases hm'
      obtain ⟨id, hfind⟩ := hknown step hstep
      obtain ⟨n, hn, hkey⟩ := (h.find_iff step.marking id).mp hfind
      exact ⟨id, n, hn, hkey, h.parent_le id n hn⟩

theorem reachable (h : d.Explored sys head) {id : Nat} (hm : d.marking? id = some m) :
    sys.Reachable m :=
  h.traced.reachable hm

/-- A marking that is known keeps its number. -/
theorem find?_eq_of_extends
    (h : d.Explored sys head) {d' : Discovery} {head' : Nat} (h' : d'.Explored sys head')
    (hext : d.Extends d') {id : Nat} (hfind : d.find? m = some id) : d'.find? m = some id :=
  (h'.find_iff m id).mpr (hext.holds ((h.find_iff m id).mp hfind))

/-- There is nothing left to expand. -/
theorem head_eq_size (h : d.Explored sys head) (hnone : d.marking? head = none) :
    head = d.size := by
  refine Nat.le_antisymm h.head_le (Nat.not_lt.mp fun hlt => ?_)
  obtain ⟨n, hn⟩ := exists_node_of_lt hlt
  simp [marking?, hn] at hnone

/-! ## States and markings -/

/-- The marking of a state agrees with every reachable marking that it stands for. -/
theorem exists_agree
    (hs : sys.WellNamed) (h : d.Explored sys head) (hm : sys.Reachable m) {id : Nat}
    (hfind : d.find? m = some id) : ∃ m', d.marking? id = some m' ∧ Agree m m' := by
  obtain ⟨n, hn, hkey⟩ := (h.find_iff m id).mp hfind
  have hstate : d.marking? id = some n.marking := marking?_eq_some_iff.mpr ⟨n, hn, rfl⟩
  have hagree : Agree n.marking m :=
    (Marking.key_eq_iff_agree (hs.domain_valid (h.reachable hstate)) (hs.domain_valid hm)).mp hkey
  exact ⟨n.marking, hstate, hagree.symm⟩

theorem find?_eq_of_agree (h : d.Explored sys head) {m' : Marking} {id : Nat}
    (hm' : d.marking? id = some m') (hagree : Agree m m') : d.find? m = some id := by
  obtain ⟨n, hn, rfl⟩ := marking?_eq_some_iff.mp hm'
  exact (h.find_iff m id).mpr ⟨n, hn, hagree.key_eq.symm⟩

/-- No two states agree. -/
theorem eq_of_agree (h : d.Explored sys head) {m' : Marking} {i j : Nat}
    (hi : d.marking? i = some m) (hj : d.marking? j = some m') (hagree : Agree m m') :
    i = j := by
  have hfirst := h.find?_eq_of_agree hi (Agree.refl m)
  rw [h.find?_eq_of_agree hj hagree] at hfirst
  exact (Option.some.inj hfirst).symm

/-! ## Depths -/

theorem depth_le_succ (h : d.Explored sys head) {id : Nat} {n : Node}
    (hn : d.nodes[id]? = some n) : d.depth id ≤ d.depth n.parent + 1 := by
  by_cases hzero : id = 0
  · rw [hzero, depth_zero]
    exact Nat.zero_le _
  · exact Nat.le_of_eq (h.traced.depth_eq_succ (Nat.pos_of_ne_zero hzero) hn)

/-- Depths ascend with the numbers of the states. -/
theorem depth_mono (h : d.Explored sys head) {i j : Nat} (hij : i ≤ j) (hj : j < d.size) :
    d.depth i ≤ d.depth j := by
  induction j using Nat.strongRecOn generalizing i with
  | ind j ih =>
      by_cases hi : i = 0
      · rw [hi, depth_zero]
        exact Nat.zero_le _
      · have hjpos : 0 < j := by omega
        obtain ⟨a, ha⟩ := exists_node_of_lt (d := d) (Nat.lt_of_le_of_lt hij hj)
        obtain ⟨b, hb⟩ := exists_node_of_lt (d := d) hj
        obtain ⟨hparent, -⟩ := h.traced.edge j b hjpos hb
        have hle := ih b.parent hparent (h.parent_mono i j a b hij ha hb) (by omega)
        rw [h.traced.depth_eq_succ (Nat.pos_of_ne_zero hi) ha,
          h.traced.depth_eq_succ hjpos hb]
        omega

/-- A marking is known when fewer firings lead to it than to any state that is
still to be expanded; it is at most as deep as the firings say. -/
theorem exists_depth_le
    (hs : sys.WellNamed) (h : d.Explored sys head) {names : List Text}
    (hrun : sys.run? names sys.initial = some m)
    (hshort : ∀ i, head ≤ i → i < d.size → names.length ≤ d.depth i) :
    ∃ id, d.find? m = some id ∧ d.depth id ≤ names.length := by
  -- Induction from the last firing on: the state before it is expanded, being shallower than
  -- every state that is not.
  induction names using List.reverseRecOn generalizing m with
  | nil =>
      cases hrun
      refine ⟨0, h.find?_eq_of_agree h.traced.root (Agree.refl _), ?_⟩
      rw [depth_zero]
      exact Nat.zero_le _
  | append_singleton names name ih =>
      rw [List.length_append, List.length_singleton] at hshort ⊢
      obtain ⟨before, hbefore, hfire⟩ := CounterSystem.run?_concat_eq_some_iff.mp hrun
      obtain ⟨source, hfind, hdepth⟩ := ih hbefore fun i hi hlt =>
        Nat.le_of_succ_le (hshort i hi hlt)
      have hreachable : sys.Reachable before := CounterSystem.Reachable.initial.run hbefore
      obtain ⟨state, hstate, hagree⟩ := h.exists_agree hs hreachable hfind
      have hsize : source < d.size := lt_size_of_marking? hstate
      have hexpanded : source < head := by
        by_contra hle
        have hdeep := hshort source (Nat.not_lt.mp hle) hsize
        omega
      obtain ⟨t, ht, -, htfire⟩ := CounterSystem.exists_transition_of_fireNamed? hfire
      obtain ⟨next, hnext, hagree'⟩ := Transition.exists_fire?_of_agree hagree htfire
      have hstep : (⟨t.name, next⟩ : Step) ∈ sys.fireable state :=
        CounterSystem.mem_fireable_iff.mpr ⟨t, ht, rfl, hnext⟩
      obtain ⟨id, n, hn, hkey, hparent⟩ := h.closed source hexpanded state hstate _ hstep
      refine ⟨id, (h.find_iff m id).mpr ⟨n, hn, hkey.trans hagree'.key_eq.symm⟩, ?_⟩
      have hle := h.depth_le_succ hn
      have hmono := h.depth_mono hparent hsize
      omega

/-- No firing sequence leads to a state in fewer firings than its depth says. -/
theorem depth_le_length
    (hs : sys.WellNamed) (h : d.Explored sys head) {names : List Text} {id : Nat}
    (hrun : sys.run? names sys.initial = some m) (hfind : d.find? m = some id) :
    d.depth id ≤ names.length := by
  by_contra hshorter
  have hshort : ∀ i, head ≤ i → i < d.size → names.length ≤ d.depth i := by
    intro i hi hlt
    obtain ⟨n, hn, -⟩ := (h.find_iff m id).mp hfind
    have hmono := h.depth_mono (Nat.le_trans (h.parent_le id n hn) hi) hlt
    have hle := h.depth_le_succ hn
    omega
  obtain ⟨id', hfind', hdepth⟩ := h.exists_depth_le hs hrun hshort
  rw [hfind] at hfind'
  cases hfind'
  exact hshorter hdepth

/-- The first state that is wanted is reached by as few firings as any marking that
is wanted, whether the exploration has come upon that marking or not. -/
theorem shortestRun_pathTo
    (hs : sys.WellNamed) (h : d.Explored sys head) {wanted : Marking → Bool}
    (hwanted : ∀ a b, Agree a b → wanted a = true → wanted b = true) {id : Nat}
    (hm : d.marking? id = some m) (hlast : wanted m = true)
    (hfirst : ∀ i < id, ∀ m', d.marking? i = some m' → wanted m' = false) :
    sys.ShortestRun wanted (d.pathTo id) where
  leads := ⟨m, h.traced.run?_pathTo hs.transitions_nodup hm, hlast⟩
  minimal others m' hrun hm' := by
    by_contra hshorter
    have hdeeper : others.length < d.depth id := Nat.not_le.mp hshorter
    obtain ⟨n, hn, -⟩ := marking?_eq_some_iff.mp hm
    have hdepth := h.depth_le_succ hn
    -- The state that is being expanded is no shallower, so the marking is known.
    have hshort : ∀ i, head ≤ i → i < d.size → others.length ≤ d.depth i := by
      intro i hi hlt
      have hmono := h.depth_mono (Nat.le_trans (h.parent_le id n hn) hi) hlt
      omega
    obtain ⟨earlier, hfind, hshallow⟩ := h.exists_depth_le hs hrun hshort
    have hreachable : sys.Reachable m' := CounterSystem.Reachable.initial.run hrun
    obtain ⟨state, hstate, hagree⟩ := h.exists_agree hs hreachable hfind
    have hlt : earlier < id := by
      by_contra hle
      have hmono := h.depth_mono (Nat.not_lt.mp hle) (lt_size_of_marking? hstate)
      omega
    have hunwanted := hfirst earlier hlt state hstate
    rw [hwanted m' state hagree hm'] at hunwanted
    exact Bool.noConfusion hunwanted

/-- When every state is expanded, every reachable marking is known. -/
theorem exists_find?_of_reachable
    (hs : sys.WellNamed) (h : d.Explored sys d.size) (hm : sys.Reachable m) :
    ∃ id, d.find? m = some id := by
  obtain ⟨names, hrun⟩ := hm.exists_run hs.transitions_nodup
  obtain ⟨id, hfind, -⟩ :=
    h.exists_depth_le hs hrun fun i hi hlt => absurd hlt (Nat.not_lt.mpr hi)
  exact ⟨id, hfind⟩

end Explored

end Discovery

end Population
