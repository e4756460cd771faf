import Population.Proofs.StateSpace.Property
import Population.Proofs.StateSpace.Search

/-!
# Querying a graph and searching

A marking can be looked for in two ways: in a state space that was built before, or
by a search that stops at the first marking that matches.  Both number the markings
in the same order and remember the same firings, so the search discovers an initial
segment of the state space.  Where the state space was built to its end, the two
give the same answer with the same firings.
-/

namespace Population

open Discovery StateSpace

variable {sys : CounterSystem} {d : Discovery} {limit : Nat} {wanted : Marking → Bool}

/-! ## In step -/

theorem StateSpace.extends_explore
    (sys : CounterSystem) (limit fuel : Nat) (allowance : Allowance) (d : Discovery)
    (edges : Array (List Edge)) :
    d.Extends (explore sys limit fuel allowance d edges).1.found :=
  explore_induct (P := fun d' _ => d.Extends d')
    (fun _ _ _ h _ => h.trans (extends_followAll _ _ _)) (Extends.refl d)

/-- Where there is room, a scan discovers what an expansion does, up to the first
marking that is wanted. -/
theorem Discovery.scan_cases
    (wanted : Marking → Bool) {source : Nat} {steps : List Step}
    (hroom : (followAll source d steps).1.size ≤ limit) :
    scan limit wanted source d steps = ((followAll source d steps).1, none) ∨
      ∃ d' id, scan limit wanted source d steps = (d', some (.found id)) ∧
        d'.Extends (followAll source d steps).1 := by
  induction steps generalizing d with
  | nil => exact .inl rfl
  | cons step rest ih =>
      simp only [followAll, scan] at hroom ⊢
      cases hfind : d.find? step.marking with
      | some id =>
          rw [follow_of_known hfind] at hroom ⊢
          exact ih hroom
      | none =>
          rw [follow_of_new hfind] at hroom ⊢
          dsimp only at hroom ⊢
          have hlater := extends_followAll source (d.add source step) rest
          have hsize := hlater.size_le
          rw [size_add] at hsize
          rw [if_neg (by omega : ¬limit ≤ d.size)]
          by_cases hwanted : wanted step.marking = true
          · rw [if_pos hwanted]
            exact .inr ⟨_, _, rfl, hlater⟩
          · rw [if_neg hwanted]
            exact ih hroom

/-- Where an exploration comes to its end, a search finds one of its states or
excludes them. -/
theorem Discovery.searchFrom_cases
    {fuel : Nat} {allowance : Allowance} {edges : Array (List Edge)} {s : StateSpace}
    (h : explore sys limit fuel allowance d edges = (s, none)) (hroom : s.size ≤ limit) :
    searchFrom sys limit wanted fuel allowance edges.size d = (s.found, .excluded) ∨
      ∃ d' id, searchFrom sys limit wanted fuel allowance edges.size d = (d', .found id) ∧
        d'.Extends s.found := by
  induction fuel generalizing allowance d edges with
  | zero => simp [explore] at h
  | succ fuel ih =>
      simp only [explore] at h
      simp only [searchFrom]
      cases hm : d.marking? edges.size with
      | none =>
          simp only [hm, Prod.mk.injEq, and_true] at h
          rw [← h]
          exact .inl rfl
      | some m =>
          simp only [hm] at h
          cases hpoll : allowance.poll with
          | none => simp [hpoll] at h
          | some rest =>
              simp only [hpoll] at h
              -- The exploration goes on behind this state, so all of its firings had room.
              split at h
              next => simp at h
              next =>
                have hlater : (followAll edges.size d (sys.fireable m)).1.Extends s.found := by
                  have hext := extends_explore sys limit fuel rest
                    (followAll edges.size d (sys.fireable m)).1
                    (edges.push (followAll edges.size d (sys.fireable m)).2)
                  rwa [h] at hext
                have hscan := scan_cases wanted (hlater.size_le.trans hroom)
                rcases hscan with hscan | ⟨d', id, hscan, hext⟩
                · have hnext := ih h
                  rw [Array.size_push] at hnext
                  simp only [hscan]
                  exact hnext
                · simp only [hscan]
                  exact .inr ⟨d', id, rfl, hext.trans hlater⟩

theorem search_cases
    {allowance : Allowance} {s : StateSpace} (h : build sys limit allowance = (s, none))
    (hroom : s.size ≤ limit) :
    search sys limit allowance wanted = (s.found, .excluded) ∨
      ∃ d' id, search sys limit allowance wanted = (d', .found id) ∧ d'.Extends s.found := by
  simp only [search]
  by_cases hwanted : wanted sys.initial = true
  · have hext : (start sys.initial).Extends (build sys limit allowance).1.found :=
      extends_explore sys limit _ allowance _ _
    rw [h] at hext
    rw [if_pos hwanted]
    exact .inr ⟨_, _, rfl, hext⟩
  · rw [if_neg hwanted]
    exact searchFrom_cases h hroom

/-- The first state that is wanted has the same number in a longer discovery. -/
theorem Discovery.Hit.first?_eq
    {s : StateSpace} {id : Nat} (h : d.Hit sys wanted id) (hext : d.Extends s.found) :
    ∃ m, s.first? (fun m _ => wanted m) = some (m, id) := by
  obtain ⟨m, hm, hwanted⟩ := h.wanted_last
  refine ⟨m, first?_eq_some_iff.mpr ⟨?_, hwanted, fun j hj m' hm' => ?_⟩⟩
  · rw [StateSpace.getElem?_markings]
    exact hext.marking?_eq hm
  · have hold : j < d.size := Nat.lt_trans hj (lt_size_of_marking? hm)
    rw [StateSpace.getElem?_markings, hext.marking?_eq_of_lt hold] at hm'
    exact h.unwanted j hj m' hm'

/-- Where a state space is built to its end, a query of the graph and a search under
the same limit give the same verdict and the same firings. -/
theorem graph_query_eq_search
    {sys : CounterSystem} {maxStates : Int} {allowance : Allowance} {s : StateSpace}
    (hbuild : build sys (stateLimit maxStates) allowance = (s, none)) (target : Marking) :
    ∃ result,
      reach sys (stateLimit maxStates) allowance (Pattern.covers target).matches =
          (result, none) ∧
        result.satisfied = (s.reachability target).satisfied ∧
        result.witness = (s.reachability target).witness := by
  obtain ⟨s', stop, hbuild', hcharted, hnumbered, hends⟩ := exists_build sys maxStates allowance
  rw [hbuild] at hbuild'
  cases hbuild'
  obtain ⟨-, -, hroom⟩ := hends
  obtain ⟨-, hsettles⟩ :=
    search_spec sys (stateLimit_pos maxStates) allowance (Pattern.covers target).matches
  rw [reach_eq]
  rcases search_cases hbuild (Nat.le_of_lt hroom) with hsearch | ⟨d, id, hsearch, hext⟩
  · rw [hsearch] at hsettles ⊢
    obtain ⟨-, hclean⟩ := hsettles
    have hnone : s.first? (fun m _ => (Pattern.covers target).matches m) = none := by
      simp only [first?_eq_none_iff, StateSpace.getElem?_markings]
      exact hclean
    rw [reachability, hnone]
    exact ⟨_, rfl, rfl, rfl⟩
  · rw [hsearch] at hsettles ⊢
    obtain ⟨m, hfirst⟩ := hsettles.first?_eq hext
    obtain ⟨head, hexplored⟩ := hsettles.explored
    have hid : id < d.size := by
      rw [hsettles.size_eq]
      exact Nat.lt_succ_self id
    have hpath : s.findPath 0 id = some (d.pathTo id) := by
      rw [findPath_eq_pathTo hcharted hnumbered (Nat.lt_of_lt_of_le hid hext.size_le),
        hexplored.traced.pathTo_eq_of_extends hcharted.explored.traced hext hid]
    rw [reachability, hfirst]
    refine ⟨_, rfl, rfl, ?_⟩
    simp only [reportAt, report, hpath, Option.getD_some]
    rfl

theorem graph_query_eq_search_lift :
    ∃ sys s, CounterSystem.read liftText = .ok sys ∧
      build sys (stateLimit 4) .unlimited = (s, none) ∧
      (s.reachability (.ofList [("high", 2)])).witness = [("up" : Text), "up"] ∧
      ∃ result,
        reach sys (stateLimit 4) .unlimited (Pattern.covers (.ofList [("high", 2)])).matches =
            (result, none) ∧
          result.satisfied = (s.reachability (.ofList [("high", 2)])).satisfied ∧
          result.witness = (s.reachability (.ofList [("high", 2)])).witness := by
  obtain ⟨sys, hread, hrun⟩ := Description.exists_eq_ok_of_any
    (x := CounterSystem.read liftText)
    (p := fun sys =>
      let (s, stop) := build sys (stateLimit 4) .unlimited
      stop = none ∧ (s.reachability (.ofList [("high", 2)])).witness = [("up" : Text), "up"])
    (by decide +kernel)
  obtain ⟨s, stop, hbuild⟩ :
      ∃ s stop, build sys (stateLimit 4) .unlimited = (s, stop) := ⟨_, _, rfl⟩
  rw [hbuild] at hrun
  obtain ⟨rfl, hwitness⟩ := of_decide_eq_true hrun
  exact ⟨sys, s, hread, hbuild, hwitness, graph_query_eq_search hbuild (.ofList [("high", 2)])⟩

end Population
