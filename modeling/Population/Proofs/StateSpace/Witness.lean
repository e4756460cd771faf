import Population.StateSpace.Discovery
import Population.Proofs.CounterSystem.Reachability

/-!
# Discoveries come with proofs

A discovery stores with every marking the firing that discovered it.  Following
these firings back to the initial marking gives a sequence that can be replayed,
so what is discovered is reachable, and the discovery shows how.  Nothing is
assumed about which other markings were looked at.
-/

namespace Population

theorem CounterSystem.mem_fireable_iff
    {sys : CounterSystem} {m : Marking} {step : Step} :
    step ∈ sys.fireable m ↔
      ∃ t ∈ sys.transitions, t.name = step.transition ∧ t.fire? m = some step.marking := by
  simp only [fireable, List.mem_filterMap, Option.map_eq_some_iff]
  constructor
  · rintro ⟨t, ht, next, hfire, rfl⟩
    exact ⟨t, ht, rfl, hfire⟩
  · rintro ⟨t, ht, hname, hfire⟩
    exact ⟨t, ht, step.marking, hfire, by rw [hname]⟩

theorem CounterSystem.Reachable.of_mem_fireable
    {sys : CounterSystem} {m : Marking} (hm : sys.Reachable m) {step : Step}
    (h : step ∈ sys.fireable m) : sys.Reachable step.marking := by
  obtain ⟨t, ht, -, hfire⟩ := mem_fireable_iff.mp h
  exact hm.fire ht hfire

namespace Discovery

/-- The first state is the initial marking, and every other one was discovered
by a firing from a state with a smaller number. -/
structure Traced (sys : CounterSystem) (d : Discovery) : Prop where
  root : d.marking? 0 = some sys.initial
  edge : ∀ id n, 0 < id → d.nodes[id]? = some n → n.parent < id ∧
    ∃ m, d.marking? n.parent = some m ∧ (⟨n.transition, n.marking⟩ : Step) ∈ sys.fireable m

variable {sys : CounterSystem} {d : Discovery} {m : Marking} {id : Nat}

theorem traced_start (sys : CounterSystem) : (start sys.initial).Traced sys where
  root := rfl
  edge id n hpos hn := by
    have hlt := (Array.getElem?_eq_some_iff.mp hn).1
    simp only [start, List.size_toArray, List.length_singleton] at hlt
    omega

theorem marking?_eq_some_iff :
    d.marking? id = some m ↔ ∃ n, d.nodes[id]? = some n ∧ n.marking = m :=
  Option.map_eq_some_iff

theorem lt_size_of_node {n : Node} (h : d.nodes[id]? = some n) : id < d.size :=
  (Array.getElem?_eq_some_iff.mp h).1

theorem lt_size_of_marking? (h : d.marking? id = some m) : id < d.size := by
  obtain ⟨n, hn, -⟩ := marking?_eq_some_iff.mp h
  exact lt_size_of_node hn

theorem exists_node_of_lt (h : id < d.size) : ∃ n, d.nodes[id]? = some n :=
  ⟨_, Array.getElem?_eq_getElem h⟩

theorem nodes_add_of_lt (h : id < d.size) (source : Nat) (step : Step) :
    (d.add source step).nodes[id]? = d.nodes[id]? :=
  Array.getElem?_push_lt h |>.trans (Array.getElem?_eq_getElem h).symm

theorem marking?_add_of_lt (h : id < d.size) (source : Nat) (step : Step) :
    (d.add source step).marking? id = d.marking? id := by
  rw [marking?, nodes_add_of_lt h, marking?]

theorem nodes_add_size (source : Nat) (step : Step) :
    (d.add source step).nodes[d.size]? =
      some ⟨step.marking, source, step.transition⟩ :=
  Array.getElem?_push_size

theorem size_add (source : Nat) (step : Step) : (d.add source step).size = d.size + 1 :=
  Array.size_push _

/-- A state of the larger discovery is an old one or the one that was added. -/
theorem node_cases_of_add
    {source : Nat} {step : Step} {n : Node} (h : (d.add source step).nodes[id]? = some n) :
    d.nodes[id]? = some n ∨ id = d.size ∧ n = ⟨step.marking, source, step.transition⟩ := by
  by_cases hid : id < d.size
  · rw [nodes_add_of_lt hid] at h
    exact .inl h
  · have hlt := lt_size_of_node h
    rw [size_add] at hlt
    obtain rfl : id = d.size := by omega
    rw [nodes_add_size] at h
    cases h
    exact .inr ⟨rfl, rfl⟩

theorem Traced.add
    (h : d.Traced sys) {source : Nat} (hsource : d.marking? source = some m) {step : Step}
    (hstep : step ∈ sys.fireable m) : (d.add source step).Traced sys where
  root := by
    rw [marking?_add_of_lt (lt_size_of_marking? h.root)]
    exact h.root
  edge id n hpos hn := by
    have hold : source < d.size := lt_size_of_marking? hsource
    rcases node_cases_of_add hn with hn | ⟨rfl, rfl⟩
    · obtain ⟨hparent, m', hm', hmem⟩ := h.edge id n hpos hn
      refine ⟨hparent, m', ?_, hmem⟩
      rw [marking?_add_of_lt (Nat.lt_trans hparent (lt_size_of_node hn))]
      exact hm'
    · refine ⟨hold, m, ?_, hstep⟩
      rw [marking?_add_of_lt hold]
      exact hsource

/-- What is discovered is reachable. -/
theorem Traced.reachable (h : d.Traced sys) (hm : d.marking? id = some m) :
    sys.Reachable m := by
  induction id using Nat.strongRecOn generalizing m with
  | ind id ih =>
      by_cases hzero : id = 0
      · rw [hzero, h.root] at hm
        cases hm
        exact .initial
      · obtain ⟨n, hn, rfl⟩ := marking?_eq_some_iff.mp hm
        obtain ⟨hparent, m', hm', hmem⟩ := h.edge id n (Nat.pos_of_ne_zero hzero) hn
        exact (ih n.parent hparent hm').of_mem_fireable hmem

/-! ## Paths -/

theorem pathFrom_zero (fuel : Nat) (rest : List Text) : d.pathFrom fuel 0 rest = rest := by
  cases fuel <;> rfl

theorem pathFrom_succ
    {n : Node} (hpos : 0 < id) (hn : d.nodes[id]? = some n) (fuel : Nat) (rest : List Text) :
    d.pathFrom (fuel + 1) id rest = d.pathFrom fuel n.parent (n.transition :: rest) := by
  rw [pathFrom, if_neg (Nat.ne_of_gt hpos), hn]

theorem pathFrom_append (fuel id : Nat) (rest tail : List Text) :
    d.pathFrom fuel id (rest ++ tail) = d.pathFrom fuel id rest ++ tail := by
  induction fuel generalizing id rest with
  | zero => rfl
  | succ fuel ih =>
      simp only [pathFrom]
      split
      · rfl
      · split
        · rfl
        next n _ => exact ih n.parent (n.transition :: rest)

/-- More fuel than needed changes nothing. -/
theorem Traced.pathFrom_eq_of_le
    (h : d.Traced sys) {n : Node} (hn : d.nodes[id]? = some n) {fuel : Nat}
    (hfuel : id ≤ fuel) (rest : List Text) :
    d.pathFrom fuel id rest = d.pathFrom id id rest := by
  induction id using Nat.strongRecOn generalizing n fuel rest with
  | ind id ih =>
      cases id with
      | zero => rw [pathFrom_zero, pathFrom_zero]
      | succ k =>
          obtain ⟨hparent, m, hm, -⟩ := h.edge (k + 1) n (Nat.succ_pos k) hn
          obtain ⟨p, hp, -⟩ := marking?_eq_some_iff.mp hm
          obtain ⟨fuel, rfl⟩ : ∃ f, fuel = f + 1 := ⟨fuel - 1, by omega⟩
          rw [pathFrom_succ (Nat.succ_pos k) hn, pathFrom_succ (Nat.succ_pos k) hn,
            ih n.parent hparent hp (by omega : n.parent ≤ fuel),
            ih n.parent hparent hp (by omega : n.parent ≤ k)]

/-- The path to a state ends with the firing that discovered it. -/
theorem Traced.pathTo_eq_concat
    (h : d.Traced sys) {n : Node} (hpos : 0 < id) (hn : d.nodes[id]? = some n) :
    d.pathTo id = d.pathTo n.parent ++ [n.transition] := by
  obtain ⟨hparent, m, hm, -⟩ := h.edge id n hpos hn
  obtain ⟨p, hp, -⟩ := marking?_eq_some_iff.mp hm
  obtain ⟨k, rfl⟩ : ∃ k, id = k + 1 := ⟨id - 1, by omega⟩
  rw [pathTo, pathFrom_succ hpos hn, h.pathFrom_eq_of_le hp (by omega)]
  exact pathFrom_append n.parent n.parent [] [n.transition]

/-- The path to a state leads there. -/
theorem Traced.run?_pathTo
    (h : d.Traced sys) (hnodup : (sys.transitions.map (·.name)).Nodup)
    (hm : d.marking? id = some m) : sys.run? (d.pathTo id) sys.initial = some m := by
  induction id using Nat.strongRecOn generalizing m with
  | ind id ih =>
      by_cases hzero : id = 0
      · rw [hzero, h.root] at hm
        rw [hzero, pathTo, pathFrom_zero]
        exact hm
      · obtain ⟨n, hn, rfl⟩ := marking?_eq_some_iff.mp hm
        have hpos : 0 < id := Nat.pos_of_ne_zero hzero
        obtain ⟨hparent, m', hm', hmem⟩ := h.edge id n hpos hn
        obtain ⟨t, ht, hname, hfire⟩ := CounterSystem.mem_fireable_iff.mp hmem
        rw [h.pathTo_eq_concat hpos hn, CounterSystem.run?_concat_eq_some_iff]
        refine ⟨m', ih n.parent hparent hm', ?_⟩
        rw [← hfire, ← CounterSystem.fireNamed?_of_mem hnodup ht, hname]

/-! ## Depths -/

/-- The number of firings by which a state was discovered. -/
def depth (d : Discovery) (id : Nat) : Nat :=
  (d.pathTo id).length

theorem depth_zero : d.depth 0 = 0 := by
  rw [depth, pathTo, pathFrom_zero, List.length_nil]

theorem Traced.depth_eq_succ
    (h : d.Traced sys) {n : Node} (hpos : 0 < id) (hn : d.nodes[id]? = some n) :
    d.depth id = d.depth n.parent + 1 := by
  rw [depth, h.pathTo_eq_concat hpos hn, List.length_append, List.length_singleton, depth]

end Discovery

end Population
