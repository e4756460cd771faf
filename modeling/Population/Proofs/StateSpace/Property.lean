import Population.StateSpace.Property
import Population.Proofs.StateSpace.Path
import Mathlib.Data.List.Find

/-!
# States that decide

A check of a state space goes through the states in the order of their numbers and
reports the first one that decides.  States are numbered by distance, so no firing
sequence leads to a marking that decides in fewer firings than the reported ones,
even where a part of the space was never explored.  Whether a state is stuck is
read off the edges of an expanded state, and found out by firing for a state that
may not be expanded; both come to the same.
-/

namespace Population

open Marking (Agree)

/-! ## Stuck markings -/

namespace CounterSystem

variable {sys : CounterSystem} {m : Marking}

theorem fireable_eq_nil_iff :
    sys.fireable m = [] ↔ ∀ t ∈ sys.transitions, t.fire? m = none := by
  simp only [fireable, List.filterMap_eq_nil_iff, Option.map_eq_none_iff]

theorem isEmpty_fireable :
    (sys.fireable m).isEmpty = !sys.transitions.any fun t => (t.fire? m).isSome := by
  rw [Bool.eq_iff_iff, List.isEmpty_iff, fireable_eq_nil_iff]
  simp

/-- The marking is not a terminal one, and nothing is fireable at it. -/
def isStuck (sys : CounterSystem) (terminal : Marking → Bool) (m : Marking) : Bool :=
  !terminal m && (sys.fireable m).isEmpty

theorem isStuck_iff {terminal : Marking → Bool} :
    sys.isStuck terminal m = true ↔
      terminal m = false ∧ ∀ t ∈ sys.transitions, t.fire? m = none := by
  rw [isStuck, Bool.and_eq_true, Bool.not_eq_true', List.isEmpty_iff, fireable_eq_nil_iff]

/-- Markings that agree are stuck together. -/
theorem isStuck_of_agree
    {terminal : Guard} {a b : Marking} (h : Agree a b)
    (ha : sys.isStuck terminal.holds a = true) : sys.isStuck terminal.holds b = true := by
  obtain ⟨hterminal, hnone⟩ := isStuck_iff.mp ha
  refine isStuck_iff.mpr ⟨?_, fun t ht => ?_⟩
  · rw [← Guard.holds_eq_of_agree h, hterminal]
  · by_contra hfires
    obtain ⟨next, hfire⟩ := Option.ne_none_iff_exists'.mp hfires
    obtain ⟨next', hfire', -⟩ := Transition.exists_fire?_of_agree h.symm hfire
    simp [hnone t ht] at hfire'

end CounterSystem

namespace StateSpace

open Discovery

variable {sys : CounterSystem} {s : StateSpace} {m : Marking} {id : Nat}
  {p q : Marking → Nat → Bool}

/-! ## The first state -/

theorem mem_numbered_iff : (m, id) ∈ s.numbered ↔ s.markings[id]? = some m :=
  List.mk_mem_zipIdx_iff_getElem?

theorem first?_eq_none_iff :
    s.first? p = none ↔ ∀ id m, s.markings[id]? = some m → p m id = false := by
  simp only [first?, List.find?_eq_none, Prod.forall, mem_numbered_iff, Bool.not_eq_true]
  exact forall_comm

theorem first?_eq_some_iff :
    s.first? p = some (m, id) ↔
      s.markings[id]? = some m ∧ p m id = true ∧
        ∀ j < id, ∀ m', s.markings[j]? = some m' → p m' j = false := by
  simp only [first?, numbered, List.find?_eq_some_iff_getElem, List.getElem_zipIdx,
    List.length_zipIdx, Prod.mk.injEq, Nat.zero_add, Bool.not_eq_true']
  constructor
  · rintro ⟨hp, i, hi, ⟨rfl, rfl⟩, hfirst⟩
    refine ⟨List.getElem?_eq_getElem hi, hp, fun j hj m' hm' => ?_⟩
    obtain ⟨-, rfl⟩ := List.getElem?_eq_some_iff.mp hm'
    exact hfirst j hj
  · rintro ⟨hm, hp, hfirst⟩
    obtain ⟨hid, rfl⟩ := List.getElem?_eq_some_iff.mp hm
    exact ⟨hp, id, hid, ⟨rfl, rfl⟩, fun j hj => hfirst j hj _ (List.getElem?_eq_getElem _)⟩

theorem first?_congr (h : ∀ id m, s.markings[id]? = some m → p m id = q m id) :
    s.first? p = s.first? q :=
  List.find?_congr fun (m, id) hmem => h id m (mem_numbered_iff.mp hmem)

/-! ## Deadlocks -/

/-- For an expanded state the edges tell whether it is stuck, for any other one the
transitions. -/
theorem isDeadlock_eq_isStuck
    (h : Charted sys s.found s.edges) (hall : s.complete = true → s.edges.size = s.size)
    (terminal : Marking → Bool) (hm : s.markings[id]? = some m) :
    s.isDeadlock sys terminal m id = sys.isStuck terminal m := by
  rw [getElem?_markings] at hm
  simp only [isDeadlock, CounterSystem.isStuck, ← CounterSystem.isEmpty_fireable]
  by_cases hexpanded : id < s.edges.size
  · have hlength := (h.firings id m _ hm (getElem?_edges hexpanded)).length_eq
    have hempty : (s.edgesFrom id).isEmpty = (sys.fireable m).isEmpty := by
      rw [Bool.eq_iff_iff, List.isEmpty_iff_length_eq_zero, List.isEmpty_iff_length_eq_zero,
        hlength]
    rw [hempty]
    cases (sys.fireable m).isEmpty <;> simp
  · have hpartial : s.complete = false := by
      rw [Bool.eq_false_iff]
      intro hcomplete
      rw [hall hcomplete] at hexpanded
      exact hexpanded (lt_size_of_marking? hm)
    rw [edgesFrom_of_le (Nat.not_lt.mp hexpanded), hpartial]
    simp

/-- On a space that was built, a deadlock is a stuck state. -/
theorem deadlockFreedom_eq
    (h : Charted sys s.found s.edges) (hall : s.complete = true → s.edges.size = s.size)
    (terminal : Marking → Bool) (name : Text) :
    s.deadlockFreedom sys terminal name =
      match s.first? fun m _ => sys.isStuck terminal m with
      | some (m, id) =>
        s.reportAt name false (Text.cat ["deadlock at state ", Text.ofNat id, ": ", m.text]) id
      | none => s.report name true "no deadlocks in the explored state space" [] := by
  have hsame : s.first? (s.isDeadlock sys terminal) =
      s.first? fun m _ => sys.isStuck terminal m :=
    first?_congr fun id m => isDeadlock_eq_isStuck h hall terminal
  unfold deadlockFreedom
  cases hfirst : s.first? fun m _ => sys.isStuck terminal m with
  | none => simp only [hsame, hfirst]
  | some state => simp only [hsame, hfirst]

end StateSpace

/-- A deadlock is reported exactly when a state is stuck without being meant to, be
the space complete or not, and then it is the stuck state with the least number. -/
theorem deadlockFreedom_exact
    (sys : CounterSystem) (terminal : Marking → Bool) (maxStates : Int) (allowance : Allowance)
    (name : Text) :
    ∃ s stop, StateSpace.build sys (stateLimit maxStates) allowance = (s, stop) ∧
      ((s.deadlockFreedom sys terminal name).satisfied = false ↔
        ∃ (id : Nat) (m : Marking), s.markings[id]? = some m ∧ terminal m = false ∧
          ∀ t ∈ sys.transitions, t.fire? m = none) ∧
      ((s.deadlockFreedom sys terminal name).satisfied = false →
        ∃ (id : Nat) (m : Marking), s.markings[id]? = some m ∧
          (terminal m = false ∧ ∀ t ∈ sys.transitions, t.fire? m = none) ∧
          (∀ j < id, ∀ m', s.markings[j]? = some m' →
            ¬(terminal m' = false ∧ ∀ t ∈ sys.transitions, t.fire? m' = none)) ∧
          s.deadlockFreedom sys terminal name =
            s.reportAt name false
              (Text.cat ["deadlock at state ", Text.ofNat id, ": ", m.text]) id) := by
  obtain ⟨s, stop, hbuild, hcharted, -, hends⟩ := StateSpace.exists_build sys maxStates allowance
  refine ⟨s, stop, hbuild, ?_⟩
  rw [StateSpace.deadlockFreedom_eq hcharted hends.edges_size_eq]
  simp only [← CounterSystem.isStuck_iff]
  cases hfirst : s.first? fun m _ => sys.isStuck terminal m with
  | none =>
      have hfree := StateSpace.first?_eq_none_iff.mp hfirst
      refine ⟨iff_of_false (by simp [StateSpace.report]) ?_, by simp [StateSpace.report]⟩
      rintro ⟨id, m, hm, hstuck⟩
      simp [hfree id m hm] at hstuck
  | some state =>
      obtain ⟨m, id⟩ := state
      obtain ⟨hm, hstuck, hleast⟩ := StateSpace.first?_eq_some_iff.mp hfirst
      refine ⟨iff_of_true rfl ⟨id, m, hm, hstuck⟩, fun _ => ⟨id, m, hm, hstuck, ?_, rfl⟩⟩
      intro j hj m' hm'
      simp [hleast j hj m' hm']

/-- With room for two states the second one is not expanded, and it is not taken for
stuck. -/
example :
    ((CounterSystem.read liftText).toOption.any fun sys =>
      let s := (StateSpace.build sys 2 .unlimited).1
      (s.edgesFrom 1).isEmpty && (s.deadlockFreedom sys (fun _ => false) "moving").satisfied) =
        true := by
  decide +kernel

/-! ## Witnesses -/

namespace StateSpace

variable {sys : CounterSystem} {s : StateSpace} {wanted : Marking → Bool}

/-- A check that decides by the first state that is wanted reports a shortest way to
a marking that is wanted. -/
theorem shortestRun_witness
    (hs : sys.WellNamed) (h : Charted sys s.found s.edges) (hnumbered : Numbered s.found s.edges)
    (hwanted : ∀ a b, Agree a b → wanted a = true → wanted b = true)
    {r : CheckResult} {property otherwise : Text} {verdict : Bool} {message : Marking → Nat → Text}
    (hr : r = match s.first? fun m _ => wanted m with
      | some (m, id) => s.reportAt property verdict (message m id) id
      | none => s.report property (!verdict) otherwise [])
    (hverdict : r.satisfied = verdict) : sys.ShortestRun wanted r.witness := by
  subst hr
  cases hfirst : s.first? fun m _ => wanted m with
  | none => simp [hfirst, report] at hverdict
  | some state =>
      obtain ⟨m, id⟩ := state
      obtain ⟨hm, hlast, hleast⟩ := first?_eq_some_iff.mp hfirst
      simp only [getElem?_markings] at hm hleast
      have hpath := findPath_eq_pathTo h hnumbered (Discovery.lt_size_of_marking? hm)
      simp only [reportAt, report, hpath, Option.getD_some]
      exact h.explored.shortestRun_pathTo hs hwanted hm hlast hleast

end StateSpace

/-- Every state has a path, and a check that reports a state reports a shortest
firing sequence to a marking that decides, wherever the exploration was stopped. -/
theorem witnesses_shortest
    {sys : CounterSystem} (hsys : sys.Obtained) (terminal : Guard) (maxStates : Int)
    (allowance : Allowance) :
    ∃ s stop, StateSpace.build sys (stateLimit maxStates) allowance = (s, stop) ∧
      (∀ (id : Nat) m, s.markings[id]? = some m →
        ∃ firings, s.findPath 0 id = some firings ∧ sys.ShortestRun (·.same m) firings) ∧
      (∀ target, (s.reachability target).satisfied = true →
        sys.ShortestRun (Pattern.covers target).matches (s.reachability target).witness) ∧
      (∀ a b name, (s.mutualExclusion a b name).satisfied = false →
        sys.ShortestRun (fun m => 0 < m.get a && 0 < m.get b)
          (s.mutualExclusion a b name).witness) ∧
      (∀ name, (s.deadlockFreedom sys terminal.holds name).satisfied = false →
        sys.ShortestRun (sys.isStuck terminal.holds)
          (s.deadlockFreedom sys terminal.holds name).witness) ∧
      (∀ counter bound name, (s.staysWithin counter bound name).satisfied = false →
        sys.ShortestRun (fun m => bound < m.get counter)
          (s.staysWithin counter bound name).witness) := by
  have hs := hsys.wellNamed
  obtain ⟨s, stop, hbuild, hcharted, hnumbered, hends⟩ :=
    StateSpace.exists_build sys maxStates allowance
  refine ⟨s, stop, hbuild, ?path, ?reachability, ?mutualExclusion, ?deadlockFreedom, ?staysWithin⟩
  case path =>
    intro id m hm
    rw [StateSpace.getElem?_markings] at hm
    have hid : id < s.size := Discovery.lt_size_of_marking? hm
    exact ⟨_, StateSpace.findPath_eq_pathTo hcharted hnumbered hid,
      hcharted.explored.shortestRun_same hs hm⟩
  case reachability =>
    intro target
    exact StateSpace.shortestRun_witness hs hcharted hnumbered
      (fun _ _ => (Pattern.covers target).matches_of_agree) rfl
  case mutualExclusion =>
    intro a b name
    refine StateSpace.shortestRun_witness hs hcharted hnumbered (fun x y h => ?_) rfl
    rw [h a, h b]
    exact id
  case deadlockFreedom =>
    intro name
    exact StateSpace.shortestRun_witness hs hcharted hnumbered
      (fun _ _ => CounterSystem.isStuck_of_agree)
      (StateSpace.deadlockFreedom_eq hcharted hends.edges_size_eq terminal.holds name)
  case staysWithin =>
    intro counter bound name
    refine StateSpace.shortestRun_witness hs hcharted hnumbered (fun x y h => ?_) rfl
    rw [h counter]
    exact id

/-- Two climbers move up, one after the other. -/
def stairsText : Text :=
  Text.cat
    ["gal stairs \x7b int low = 2; int high = 0; ",
      "transition up [low >= 1] \x7b low -= 1; high += 1; \x7d \x7d"]

/-- Somebody is below. -/
def somebodyBelow : Guard := [⟨"low", .ge, 1⟩]

/-- With a limit of three the last state is not expanded, and every check reports a
state. -/
theorem witnesses_shortest_stairs :
    ∃ sys s, CounterSystem.read stairsText = .ok sys ∧ sys.Obtained ∧
      StateSpace.build sys (stateLimit 3) .unlimited = (s, some (.limit 3)) ∧
      ((s.reachability (.ofList [("high", 2)])).witness = [("up" : Text), "up"] ∧
        sys.ShortestRun (Pattern.covers (.ofList [("high", 2)])).matches ["up", "up"]) ∧
      ((s.mutualExclusion "low" "high" "apart").witness = [("up" : Text)] ∧
        sys.ShortestRun (fun m => 0 < m.get "low" && 0 < m.get "high") ["up"]) ∧
      ((s.deadlockFreedom sys somebodyBelow.holds "moving").witness = [("up" : Text), "up"] ∧
        sys.ShortestRun (sys.isStuck somebodyBelow.holds) ["up", "up"]) ∧
      ((s.staysWithin "high" 1 "room").witness = [("up" : Text), "up"] ∧
        sys.ShortestRun (fun m => 1 < m.get "high") ["up", "up"]) := by
  obtain ⟨sys, hread, hrun⟩ := Description.exists_eq_ok_of_any
    (x := CounterSystem.read stairsText)
    (p := fun sys =>
      let (s, stop) := StateSpace.build sys (stateLimit 3) .unlimited
      let reach := s.reachability (.ofList [("high", 2)])
      let apart := s.mutualExclusion "low" "high" "apart"
      let moving := s.deadlockFreedom sys somebodyBelow.holds "moving"
      let room := s.staysWithin "high" 1 "room"
      stop = some (.limit 3) ∧
        (reach.satisfied = true ∧ reach.witness = [("up" : Text), "up"]) ∧
        (apart.satisfied = false ∧ apart.witness = [("up" : Text)]) ∧
        (moving.satisfied = false ∧ moving.witness = [("up" : Text), "up"]) ∧
        room.satisfied = false ∧ room.witness = [("up" : Text), "up"]) (by decide +kernel)
  have hsys : sys.Obtained := .read hread
  obtain ⟨s, stop, hbuild, -, hreach, hapart, hmoving, hroom⟩ :=
    witnesses_shortest hsys somebodyBelow 3 .unlimited
  rw [hbuild] at hrun
  obtain ⟨rfl, ⟨hreach₁, hreach₂⟩, ⟨hapart₁, hapart₂⟩, ⟨hmoving₁, hmoving₂⟩, hroom₁, hroom₂⟩ :=
    of_decide_eq_true hrun
  refine ⟨sys, s, hread, hsys, hbuild, ⟨hreach₂, ?_⟩, ⟨hapart₂, ?_⟩, ⟨hmoving₂, ?_⟩,
    ⟨hroom₂, ?_⟩⟩
  · rw [← hreach₂]
    exact hreach _ hreach₁
  · rw [← hapart₂]
    exact hapart _ _ _ hapart₁
  · rw [← hmoving₂]
    exact hmoving _ hmoving₁
  · rw [← hroom₂]
    exact hroom _ _ _ hroom₁

end Population
