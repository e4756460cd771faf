import Population.StateSpace.Basic
import Population.Proofs.StateSpace.Counting

/-!
# State spaces are reachability graphs

An exploration that is stopped has charted a part of the reachability graph: it
lists states by their distance from the initial one, and for an initial segment of
them all firings.  An exploration that is not stopped has charted the whole graph.
It is stopped by the limit when there are as many states as the limit says and one
is still to be expanded, and by a cancellation after as many expansions as the
allowance grants.
-/

namespace Population

open Marking (Agree)

/-! ## Distances -/

/-- So many firings lead to the marking, and no fewer do. -/
def CounterSystem.Distance (sys : CounterSystem) (m : Marking) (k : Nat) : Prop :=
  ∃ names, names.length = k ∧ sys.ShortestRun (·.same m) names

namespace Discovery

variable {sys : CounterSystem} {d : Discovery} {head id : Nat} {m : Marking}

/-- Where a reachable marking is found. -/
theorem Explored.find?_eq_some_iff
    (hs : sys.WellNamed) (h : d.Explored sys head) (hm : sys.Reachable m) :
    d.find? m = some id ↔ ∃ m', d.marking? id = some m' ∧ m'.same m = true := by
  constructor
  · intro hfind
    obtain ⟨m', hm', hagree⟩ := h.exists_agree hs hm hfind
    exact ⟨m', hm', Marking.same_iff_agree.mpr hagree.symm⟩
  · rintro ⟨m', hm', hsame⟩
    exact h.find?_eq_of_agree hm' (Marking.same_iff_agree.mp hsame).symm

/-- No fewer firings lead to a state than those by which it was discovered. -/
theorem Explored.shortestRun_same
    (hs : sys.WellNamed) (h : d.Explored sys head) (hm : d.marking? id = some m) :
    sys.ShortestRun (·.same m) (d.pathTo id) where
  leads := by
    have hrun := h.traced.run?_pathTo hs.transitions_nodup hm
    exact ⟨m, hrun, Marking.same_iff_agree.mpr (Agree.refl m)⟩
  minimal others m' hrun hsame := by
    have hfind := h.find?_eq_of_agree hm (Marking.same_iff_agree.mp hsame)
    exact h.depth_le_length hs hrun hfind

/-- The depth of a state is its distance. -/
theorem Explored.distance_depth
    (hs : sys.WellNamed) (h : d.Explored sys head) (hm : d.marking? id = some m) :
    sys.Distance m (d.depth id) :=
  ⟨d.pathTo id, rfl, h.shortestRun_same hs hm⟩

end Discovery

theorem Allowance.polls_of_poll_eq_none {a : Allowance} (h : a.poll = none) :
    a.polls = some 0 := by
  unfold poll at h
  split at h
  · simp at h
  · assumption
  · simp at h

theorem Allowance.polls_of_poll_eq_some {a rest : Allowance} (h : a.poll = some rest) :
    a.polls = rest.polls.map (· + 1) := by
  unfold poll at h
  split at h
  next hpolls =>
    cases h
    rw [hpolls, Option.map_none]
  next => simp at h
  next n hpolls =>
    cases h
    exact hpolls

namespace StateSpace

open Discovery

variable {sys : CounterSystem} {d : Discovery} {head limit : Nat} {m : Marking}

/-! ## Following firings -/

/-- The edge stands for the firing. -/
def Represents (d : Discovery) (step : Step) (e : Edge) : Prop :=
  e.transition = step.transition ∧ d.find? step.marking = some e.target

theorem Represents.extend
    (h : d.Explored sys head) {d' : Discovery} {head' : Nat} (h' : d'.Explored sys head')
    (hext : d.Extends d') {step : Step} {e : Edge} (he : Represents d step e) :
    Represents d' step e :=
  ⟨he.1, h.find?_eq_of_extends h' hext he.2⟩

theorem exists_find?_of_represents
    {steps : List Step} {es : List Edge} (h : List.Forall₂ (Represents d) steps es) :
    ∀ step ∈ steps, ∃ id, d.find? step.marking = some id := by
  induction h with
  | nil => simp
  | @cons step e _ _ he _ ih => exact List.forall_mem_cons.mpr ⟨⟨e.target, he.2⟩, ih⟩

theorem follow_of_known {source id : Nat} {step : Step} (h : d.find? step.marking = some id) :
    follow source d step = (d, ⟨step.transition, id⟩) := by
  rw [follow, h]

theorem follow_of_new {source : Nat} {step : Step} (h : d.find? step.marking = none) :
    follow source d step = (d.add source step, ⟨step.transition, d.size⟩) := by
  rw [follow, h]

theorem extends_follow (source : Nat) (d : Discovery) (step : Step) :
    d.Extends (follow source d step).1 := by
  cases h : d.find? step.marking with
  | some id =>
      rw [follow_of_known h]
      exact Extends.refl d
  | none =>
      rw [follow_of_new h]
      exact extends_add source step

theorem extends_followAll (source : Nat) (d : Discovery) (steps : List Step) :
    d.Extends (followAll source d steps).1 := by
  induction steps generalizing d with
  | nil => exact Extends.refl d
  | cons step rest ih => exact (extends_follow source d step).trans (ih _)

theorem follow_spec
    (h : d.Explored sys head) (hhead : d.marking? head = some m) {step : Step}
    (hstep : step ∈ sys.fireable m) :
    (follow head d step).1.Explored sys head ∧
      Represents (follow head d step).1 step (follow head d step).2 := by
  cases hfind : d.find? step.marking with
  | some id =>
      rw [follow_of_known hfind]
      exact ⟨h, rfl, hfind⟩
  | none =>
      rw [follow_of_new hfind]
      refine ⟨h.add hhead hstep hfind, rfl, ?_⟩
      rw [find?_add, if_pos rfl]

theorem followAll_spec
    (h : d.Explored sys head) (hhead : d.marking? head = some m) {steps : List Step}
    (hsteps : ∀ step ∈ steps, step ∈ sys.fireable m) :
    (followAll head d steps).1.Explored sys head ∧
      List.Forall₂ (Represents (followAll head d steps).1) steps
        (followAll head d steps).2 := by
  induction steps generalizing d with
  | nil => exact ⟨h, .nil⟩
  | cons step rest ih =>
      obtain ⟨hstep, hrest⟩ := List.forall_mem_cons.mp hsteps
      obtain ⟨hfirst, he⟩ := follow_spec h hhead hstep
      have hhead' := (extends_follow head d step).marking?_eq hhead
      obtain ⟨hall, hes⟩ := ih hfirst hhead' hrest
      exact ⟨hall, .cons (he.extend hfirst hall (extends_followAll head _ rest)) hes⟩

/-! ## Exploring -/

/-- The edges of the expanded states are their firings, in order. -/
structure Charted (sys : CounterSystem) (d : Discovery) (edges : Array (List Edge)) :
    Prop where
  explored : d.Explored sys edges.size
  firings : ∀ i m es, d.marking? i = some m → edges[i]? = some es →
    List.Forall₂ (Represents d) (sys.fireable m) es

theorem charted_start (sys : CounterSystem) : Charted sys (start sys.initial) #[] where
  explored := explored_start sys
  firings i m es _ hes := by simp at hes

/-- The next state is expanded. -/
theorem Charted.expand
    {edges : Array (List Edge)} (h : Charted sys d edges)
    (hhead : d.marking? edges.size = some m) :
    Charted sys (followAll edges.size d (sys.fireable m)).1
      (edges.push (followAll edges.size d (sys.fireable m)).2) := by
  obtain ⟨hexplored, hes⟩ :=
    followAll_spec h.explored hhead (fun _ hs => hs : ∀ s ∈ sys.fireable m, s ∈ _)
  have hext := extends_followAll edges.size d (sys.fireable m)
  have hhead' := hext.marking?_eq hhead
  refine ⟨?_, ?_⟩
  · rw [Array.size_push]
    exact hexplored.advance hhead' (exists_find?_of_represents hes)
  · intro i m' es hm' hi
    rw [Array.getElem?_push] at hi
    split at hi
    next hlast =>
      cases hi
      rw [hlast, hhead'] at hm'
      cases hm'
      exact hes
    next hne =>
      have hold : i < d.size :=
        Nat.lt_of_lt_of_le (Array.getElem?_eq_some_iff.mp hi).1 h.explored.head_le
      obtain ⟨n, hn⟩ := exists_node_of_lt hold
      have hm : d.marking? i = some n.marking := marking?_eq_some_iff.mpr ⟨n, hn, rfl⟩
      rw [hext.marking?_eq hm] at hm'
      cases hm'
      exact (h.firings i n.marking es hm hi).imp fun _ _ he =>
        he.extend h.explored hexplored hext

/-- What every expansion preserves holds when the exploration ends. -/
theorem explore_induct
    {P : Discovery → Array (List Edge) → Prop} {fuel : Nat} {allowance : Allowance}
    {edges : Array (List Edge)}
    (hexpand : ∀ d edges m, P d edges → d.marking? edges.size = some m →
      P (followAll edges.size d (sys.fireable m)).1
        (edges.push (followAll edges.size d (sys.fireable m)).2))
    (h : P d edges) :
    P (explore sys limit fuel allowance d edges).1.found
      (explore sys limit fuel allowance d edges).1.edges := by
  induction fuel generalizing allowance d edges with
  | zero => exact h
  | succ fuel ih =>
      simp only [explore]
      split
      next => exact h
      next m hm =>
        split
        next => exact h
        next =>
          split
          next => exact h
          next => exact ih (hexpand d edges m h hm)

/-- How an exploration ends that may expand so many states. -/
def Ends (limit : Nat) (allowance : Allowance) (s : StateSpace) : Option Stop → Prop
  | none => s.complete = true ∧ s.edges.size = s.size ∧ s.size < limit
  | some (.limit n) => s.complete = false ∧ n = limit ∧ limit ≤ s.size
  | some .cancelled => s.complete = false ∧ allowance.polls = some s.edges.size

theorem Ends.complete_iff
    {allowance : Allowance} {s : StateSpace} {stop : Option Stop}
    (h : s.Ends limit allowance stop) : s.complete = true ↔ stop = none := by
  cases stop with
  | none => exact iff_of_true h.1 rfl
  | some why =>
      have hpartial : s.complete = false := by
        cases why with
        | limit n => exact h.1
        | cancelled => exact h.1
      simp [hpartial]

theorem Ends.edges_size_eq
    {allowance : Allowance} {s : StateSpace} {stop : Option Stop}
    (h : s.Ends limit allowance stop) (hcomplete : s.complete = true) :
    s.edges.size = s.size := by
  rw [h.complete_iff.mp hcomplete] at h
  exact h.2.1

theorem explore_spec
    {fuel : Nat} {edges : Array (List Edge)} {given allowance : Allowance}
    (h : Charted sys d edges) (hlimit : edges.size < limit)
    (hfuel : fuel + edges.size = limit + 1)
    (hgiven : given.polls = allowance.polls.map (· + edges.size)) :
    Charted sys (explore sys limit fuel allowance d edges).1.found
        (explore sys limit fuel allowance d edges).1.edges ∧
      (explore sys limit fuel allowance d edges).1.Ends limit given
        (explore sys limit fuel allowance d edges).2 := by
  induction fuel generalizing allowance d edges with
  | zero => omega
  | succ fuel ih =>
      simp only [explore]
      split
      next hnone =>
        have hall : edges.size = d.size := h.explored.head_eq_size hnone
        exact ⟨h, rfl, hall, lt_of_eq_of_lt hall.symm hlimit⟩
      next m hm =>
        split
        next hpoll =>
          rw [Allowance.polls_of_poll_eq_none hpoll, Option.map_some, Nat.zero_add] at hgiven
          exact ⟨h, rfl, hgiven⟩
        next rest hpoll =>
          split
          next hfull => exact ⟨h, rfl, rfl, hfull⟩
          next hroom =>
            have hsize : edges.size < d.size := lt_size_of_marking? hm
            refine ih (h.expand hm) ?_ ?_ ?_
            · rw [Array.size_push]
              omega
            · rw [Array.size_push]
              omega
            · rw [hgiven, Allowance.polls_of_poll_eq_some hpoll, Option.map_map, Array.size_push]
              congr 1
              funext k
              exact Nat.add_right_comm k 1 edges.size

theorem build_spec (sys : CounterSystem) (hlimit : 1 ≤ limit) (allowance : Allowance) :
    Charted sys (build sys limit allowance).1.found (build sys limit allowance).1.edges ∧
      (build sys limit allowance).1.Ends limit allowance (build sys limit allowance).2 :=
  explore_spec (charted_start sys) hlimit rfl (by simp)

/-! ## The graph -/

/-- A part of the reachability graph: states by distance, and for an initial
segment of them the firings in the order of the transitions. -/
structure ReachabilityGraph (sys : CounterSystem) (s : StateSpace) : Prop where
  initial : s.markings[0]? = some sys.initial
  states : sys.DistinctStates s.markings
  lookup_eq : ∀ i m, s.markings[i]? = some m → s.lookup m = some (i, m)
  by_distance : ∀ (i j : Nat) a b, i ≤ j → s.markings[i]? = some a → s.markings[j]? = some b →
    ∃ k l, sys.Distance a k ∧ sys.Distance b l ∧ k ≤ l
  expanded_le : s.edges.size ≤ s.size
  firings : ∀ i m, i < s.edges.size → s.markings[i]? = some m →
    List.Forall₂
      (fun step e => e.transition = step.transition ∧ ∀ j, e.target = j ↔
        ∃ m', s.markings[j]? = some m' ∧ m'.same step.marking = true)
      (sys.fireable m) (s.edgesFrom i)
  unexpanded : ∀ i, s.edges.size ≤ i → s.edgesFrom i = []

theorem getElem?_markings {s : StateSpace} (i : Nat) :
    s.markings[i]? = s.found.marking? i :=
  Discovery.getElem?_markings i

theorem getElem?_edges {s : StateSpace} {i : Nat} (h : i < s.edges.size) :
    s.edges[i]? = some (s.edgesFrom i) := by
  rw [edgesFrom, Array.getElem?_eq_getElem h, Option.getD_some]

theorem edgesFrom_of_le {s : StateSpace} {i : Nat} (h : s.edges.size ≤ i) :
    s.edgesFrom i = [] := by
  rw [edgesFrom, Array.getElem?_eq_none h, Option.getD_none]

theorem Charted.reachabilityGraph
    (hs : sys.WellNamed) {s : StateSpace} (h : Charted sys s.found s.edges) :
    s.ReachabilityGraph sys where
  initial := by
    rw [getElem?_markings]
    exact h.explored.traced.root
  states := h.explored.distinctStates
  lookup_eq i m hm := by
    rw [getElem?_markings] at hm
    rw [lookup, h.explored.find?_eq_of_agree hm (Agree.refl m)]
    simp [hm]
  by_distance i j a b hij ha hb := by
    rw [getElem?_markings] at ha hb
    exact ⟨_, _, h.explored.distance_depth hs ha, h.explored.distance_depth hs hb,
      h.explored.depth_mono hij (lt_size_of_marking? hb)⟩
  expanded_le := h.explored.head_le
  firings i m hi hm := by
    rw [getElem?_markings] at hm
    have hreachable : ∀ step ∈ sys.fireable m, sys.Reachable step.marking := fun step hstep =>
      (h.explored.reachable hm).of_mem_fireable hstep
    have hpairs := (List.forall₂_and_left _ _).mpr
      ⟨hreachable, h.firings i m _ hm (getElem?_edges hi)⟩
    refine hpairs.imp ?_
    rintro step e ⟨hstep, htransition, htarget⟩
    refine ⟨htransition, fun j => ?_⟩
    rw [getElem?_markings, ← h.explored.find?_eq_some_iff hs hstep, htarget, Option.some.injEq]
  unexpanded _ hi := edgesFrom_of_le hi

/-- When all states are expanded, every reachable marking is one of them. -/
theorem Charted.existsUnique_state
    (hs : sys.WellNamed) {s : StateSpace} (h : Charted sys s.found s.edges)
    (hall : s.edges.size = s.size) (hm : sys.Reachable m) :
    ∃! i : Nat, ∃ m', s.markings[i]? = some m' ∧ m'.same m = true := by
  have hexplored := h.explored
  rw [hall] at hexplored
  obtain ⟨id, hfind⟩ := hexplored.exists_find?_of_reachable hs hm
  simp only [getElem?_markings, ← hexplored.find?_eq_some_iff hs hm, hfind]
  exact ⟨id, rfl, fun j hj => (Option.some.inj hj).symm⟩

end StateSpace

/-- What is explored under a limit and an allowance is a part of the reachability
graph, and all of it unless the exploration is stopped. -/
theorem build_reachabilityGraph
    {sys : CounterSystem} (hsys : sys.Obtained) (maxStates : Int) (allowance : Allowance) :
    ∃ s stop, StateSpace.build sys (stateLimit maxStates) allowance = (s, stop) ∧
      s.ReachabilityGraph sys ∧
      (s.complete = true → s.edges.size = s.size ∧
        ∀ m, sys.Reachable m → ∃! i : Nat, ∃ m', s.markings[i]? = some m' ∧ m'.same m = true) ∧
      (s.complete = true ↔ stop = none) ∧
      (∀ n, stop = some (.limit n) → n = stateLimit maxStates ∧ n ≤ s.size) ∧
      (stop = some .cancelled → allowance.polls = some s.edges.size) := by
  have hs := hsys.wellNamed
  obtain ⟨hcharted, hends⟩ := StateSpace.build_spec sys (stateLimit_pos maxStates) allowance
  obtain ⟨s, stop, hbuild⟩ :
      ∃ s stop, StateSpace.build sys (stateLimit maxStates) allowance = (s, stop) := ⟨_, _, rfl⟩
  rw [hbuild] at hcharted hends
  refine ⟨s, stop, hbuild, hcharted.reachabilityGraph hs, ?_, hends.complete_iff, ?_, ?_⟩
  · intro hcomplete
    have hall := hends.edges_size_eq hcomplete
    exact ⟨hall, fun m => hcharted.existsUnique_state hs hall⟩
  · intro n hstop
    rw [hstop] at hends
    obtain ⟨-, rfl, hfull⟩ := hends
    exact ⟨rfl, hfull⟩
  · intro hstop
    rw [hstop] at hends
    exact hends.2

theorem build_reachabilityGraph_lift :
    ∃ sys, CounterSystem.read liftText = .ok sys ∧ sys.Obtained ∧
      ∃ s stop, StateSpace.build sys (stateLimit 4) .unlimited = (s, stop) ∧
        s.ReachabilityGraph sys ∧
        (s.complete = true → s.edges.size = s.size ∧
          ∀ m, sys.Reachable m → ∃! i : Nat, ∃ m', s.markings[i]? = some m' ∧ m'.same m = true) ∧
        (s.complete = true ↔ stop = none) ∧
        (∀ n, stop = some (.limit n) → n = stateLimit 4 ∧ n ≤ s.size) ∧
        (stop = some .cancelled → Allowance.unlimited.polls = some s.edges.size) := by
  obtain ⟨sys, hread⟩ := exists_read_liftText
  exact ⟨sys, hread, .read hread, build_reachabilityGraph (.read hread) 4 .unlimited⟩

end Population
