import Population.Oracle.Basic
import Population.Proofs.StateSpace.Counting

/-!
# What a search establishes

A search ends in one of four ways.  It finds a state that is wanted, and then no
firing sequence leads to a wanted marking in fewer firings.  It excludes wanted
markings, having expanded every state.  It stops at the limit with a reachable
marking in hand for which there is no room.  Or it is cancelled, which settles
nothing.
-/

namespace Population

namespace Discovery

open Marking (Agree)

/-- No state is wanted. -/
def Clean (wanted : Marking → Bool) (d : Discovery) : Prop :=
  ∀ id m, d.marking? id = some m → wanted m = false

/-- The last state is the first that is wanted. -/
structure Hit (sys : CounterSystem) (wanted : Marking → Bool) (d : Discovery) (id : Nat) :
    Prop where
  explored : ∃ head, d.Explored sys head
  size_eq : d.size = id + 1
  wanted_last : ∃ m, d.marking? id = some m ∧ wanted m = true
  unwanted : ∀ i < id, ∀ m, d.marking? i = some m → wanted m = false

/-- What the end of a search says about the states that were discovered. -/
def Settles (sys : CounterSystem) (limit : Nat) (allowance : Allowance)
    (wanted : Marking → Bool) (d : Discovery) : SearchEnd → Prop
  | .found id => d.Hit sys wanted id
  | .excluded => d.Explored sys d.size ∧ d.Clean wanted
  | .stopped (.limit n) => n = limit ∧ d.size = limit ∧ ∃ head, d.Explored sys head ∧
      ∃ m, sys.Reachable m ∧ d.find? m = none
  | .stopped .cancelled => allowance ≠ .unlimited

variable {sys : CounterSystem} {d : Discovery} {head limit : Nat} {m : Marking}
  {wanted : Marking → Bool}

/-! ## Scanning -/

theorem clean_start (h : wanted sys.initial = false) :
    (start sys.initial).Clean wanted := by
  intro id m hm
  obtain ⟨n, hn, rfl⟩ := marking?_eq_some_iff.mp hm
  obtain ⟨-, rfl⟩ := node_start hn
  exact h

theorem Clean.add
    (h : d.Clean wanted) {source : Nat} {step : Step} (hstep : wanted step.marking = false) :
    (d.add source step).Clean wanted := by
  intro id m hm
  obtain ⟨n, hn, rfl⟩ := marking?_eq_some_iff.mp hm
  rcases node_cases_of_add hn with hn | ⟨-, rfl⟩
  · exact h id n.marking (marking?_eq_some_iff.mpr ⟨n, hn, rfl⟩)
  · exact hstep

/-- The first wanted marking is discovered from the state `head`. -/
theorem hit_add
    (h : d.Explored sys head) (hclean : d.Clean wanted) (hhead : d.marking? head = some m)
    {step : Step} (hstep : step ∈ sys.fireable m) (hnew : d.find? step.marking = none)
    (hwanted : wanted step.marking = true) :
    (d.add head step).Hit sys wanted d.size where
  explored := ⟨head, h.add hhead hstep hnew⟩
  size_eq := size_add head step
  wanted_last :=
    ⟨step.marking, marking?_eq_some_iff.mpr ⟨_, nodes_add_size head step, rfl⟩, hwanted⟩
  unwanted i hi m' hm' := by
    rw [marking?_add_of_lt hi] at hm'
    exact hclean i m' hm'

/-- What a scan leaves behind when it comes to the end of the firings. -/
structure Scanned (sys : CounterSystem) (wanted : Marking → Bool) (head : Nat)
    (steps : List Step) (d : Discovery) : Prop where
  explored : d.Explored sys head
  clean : d.Clean wanted
  known : ∀ step ∈ steps, ∃ id, d.find? step.marking = some id

/-- A firing that leads to a known marking changes nothing. -/
theorem Scanned.cons
    {steps : List Step} {d' : Discovery} (h' : d'.Scanned sys wanted head steps)
    (h : d.Explored sys head) (hext : d.Extends d') {step : Step} {id : Nat}
    (hfind : d.find? step.marking = some id) : d'.Scanned sys wanted head (step :: steps) where
  explored := h'.explored
  clean := h'.clean
  known := List.forall_mem_cons.mpr
    ⟨⟨id, h.find?_eq_of_extends h'.explored hext hfind⟩, h'.known⟩

/-- A scan goes through all firings or ends the search. -/
theorem scan_spec
    (allowance : Allowance) {steps : List Step} (h : d.Explored sys head)
    (hclean : d.Clean wanted) (hsize : d.size ≤ limit) (hhead : d.marking? head = some m)
    (hsteps : ∀ step ∈ steps, step ∈ sys.fireable m) :
    (scan limit wanted head d steps).1.size ≤ limit ∧
      d.Extends (scan limit wanted head d steps).1 ∧
      match (scan limit wanted head d steps).2 with
      | none => (scan limit wanted head d steps).1.Scanned sys wanted head steps
      | some e => Settles sys limit allowance wanted (scan limit wanted head d steps).1 e := by
  induction steps generalizing d with
  | nil => exact ⟨hsize, Extends.refl d, ⟨h, hclean, by simp⟩⟩
  | cons step rest ih =>
      obtain ⟨hstep, hrest⟩ := List.forall_mem_cons.mp hsteps
      simp only [scan]
      split
      next id hknown =>
        obtain ⟨hsize', hext, hend⟩ := ih h hclean hsize hhead hrest
        refine ⟨hsize', hext, ?_⟩
        split
        next hnone =>
          simp only [hnone] at hend
          exact hend.cons h hext hknown
        next e he =>
          simp only [he] at hend
          exact hend
      next hnew =>
        split
        next hfull =>
          have hreachable := (h.reachable hhead).of_mem_fireable hstep
          exact ⟨hsize, Extends.refl d,
            rfl, Nat.le_antisymm hsize hfull, head, h, step.marking, hreachable, hnew⟩
        next hroom =>
          have hadd := h.add hhead hstep hnew
          have hgrow : d.Extends (d.add head step) := extends_add head step
          have hsize₁ : (d.add head step).size ≤ limit := by
            rw [size_add]
            omega
          split
          next hwanted => exact ⟨hsize₁, hgrow, hit_add h hclean hhead hstep hnew hwanted⟩
          next hunwanted =>
            obtain ⟨hsize', hext, hend⟩ := ih hadd (hclean.add (Bool.eq_false_iff.mpr hunwanted))
              hsize₁ (hgrow.marking?_eq hhead) hrest
            refine ⟨hsize', hgrow.trans hext, ?_⟩
            split
            next hnone =>
              simp only [hnone] at hend
              have hnow : (d.add head step).find? step.marking = some d.size := by
                rw [find?_add, if_pos rfl]
              exact hend.cons hadd hext hnow
            next e he =>
              simp only [he] at hend
              exact hend

/-! ## Searching -/

/-- A question that is settled after a poll is settled. -/
theorem Settles.of_poll
    {allowance rest : Allowance} (hpoll : allowance.poll = some rest) {e : SearchEnd}
    (h : Settles sys limit rest wanted d e) : Settles sys limit allowance wanted d e := by
  cases e with
  | found id => exact h
  | excluded => exact h
  | stopped why =>
      cases why with
      | limit n => exact h
      | cancelled =>
          rintro rfl
          exact h (Option.some.inj hpoll).symm

theorem searchFrom_spec
    {fuel : Nat} {allowance : Allowance} (h : d.Explored sys head) (hclean : d.Clean wanted)
    (hsize : d.size ≤ limit) (hfuel : fuel + head = limit + 1) :
    (searchFrom sys limit wanted fuel allowance head d).1.size ≤ limit ∧
      Settles sys limit allowance wanted
        (searchFrom sys limit wanted fuel allowance head d).1
        (searchFrom sys limit wanted fuel allowance head d).2 := by
  induction fuel generalizing allowance head d with
  | zero =>
      -- So many states were never discovered.
      have hle := h.head_le
      omega
  | succ fuel ih =>
      simp only [searchFrom]
      split
      next hnone =>
        have hall : head = d.size := h.head_eq_size hnone
        exact ⟨hsize, hall ▸ h, hclean⟩
      next m hm =>
        split
        next hpoll =>
          refine ⟨hsize, ?_⟩
          rintro rfl
          simp at hpoll
        next rest hpoll =>
          obtain ⟨hsize', hext, hend⟩ :=
            scan_spec rest h hclean hsize hm (fun _ hs => hs : ∀ s ∈ sys.fireable m, s ∈ _)
          split
          next d' e hscan =>
            simp only [hscan] at hsize' hend
            exact ⟨hsize', hend.of_poll hpoll⟩
          next d' hscan =>
            simp only [hscan] at hsize' hext hend
            have hadvanced := hend.explored.advance (hext.marking?_eq hm) hend.known
            obtain ⟨hbound, hsettles⟩ :=
              ih hadvanced hend.clean hsize' (by omega)
            exact ⟨hbound, hsettles.of_poll hpoll⟩

end Discovery

open Discovery in
/-- A search that has room for the initial state settles its question. -/
theorem search_spec
    (sys : CounterSystem) {limit : Nat} (hlimit : 1 ≤ limit) (allowance : Allowance)
    (wanted : Marking → Bool) :
    (search sys limit allowance wanted).1.size ≤ limit ∧
      Settles sys limit allowance wanted (search sys limit allowance wanted).1
        (search sys limit allowance wanted).2 := by
  have hsize : (start sys.initial).size ≤ limit := hlimit
  simp only [search]
  split
  next hwanted =>
    refine ⟨hsize, ⟨0, explored_start sys⟩, rfl, ⟨sys.initial, rfl, hwanted⟩, ?_⟩
    intro i hi
    exact absurd hi (Nat.not_lt_zero i)
  next hunwanted =>
    exact searchFrom_spec (explored_start sys) (clean_start (Bool.eq_false_iff.mpr hunwanted))
      hsize rfl

theorem reach_eq
    (sys : CounterSystem) (limit : Nat) (allowance : Allowance) (wanted : Marking → Bool) :
    reach sys limit allowance wanted =
      (searchReport (search sys limit allowance wanted).1 (search sys limit allowance wanted).2,
        (search sys limit allowance wanted).2.stop?) := rfl

theorem exists_found_of_satisfied {d : Discovery} {e : SearchEnd}
    (h : (searchReport d e).satisfied = true) :
    ∃ id, e = .found id ∧ (searchReport d e).witness = d.pathTo id := by
  cases e with
  | found id => exact ⟨id, rfl, rfl⟩
  | excluded => simp [searchReport] at h
  | stopped why => cases why <;> simp [searchReport] at h

/-- The witness of a satisfied search can be replayed and ends in a marking that
is wanted. -/
theorem exists_run?_of_reach
    {sys : CounterSystem} (hnodup : (sys.transitions.map (·.name)).Nodup)
    {limit : Nat} (hlimit : 1 ≤ limit) {allowance : Allowance} {wanted : Marking → Bool}
    (h : (reach sys limit allowance wanted).1.satisfied = true) :
    ∃ m, sys.run? (reach sys limit allowance wanted).1.witness sys.initial = some m ∧
      wanted m = true := by
  rw [reach_eq] at h ⊢
  obtain ⟨id, hfound, hwitness⟩ := exists_found_of_satisfied h
  obtain ⟨-, hsettles⟩ := search_spec sys hlimit allowance wanted
  rw [hfound] at hsettles
  obtain ⟨⟨head, hexplored⟩, -, ⟨m, hm, hwanted⟩, -⟩ := hsettles
  refine ⟨m, ?_, hwanted⟩
  rw [hwitness, hexplored.traced.run?_pathTo hnodup hm]

/-- So does the witness of the explicit oracle. -/
theorem Explicit.exists_run?_of_ask
    {sys : CounterSystem} (hnodup : (sys.transitions.map (·.name)).Nodup)
    {maxStates : Int} {allowance : Allowance} {path : Text} {target : Marking} {a : Answer}
    (hask : ask maxStates allowance ⟨some sys, path, target⟩ = ⟨some a, none⟩)
    (hreachable : a.reachable = true) :
    ∃ m, sys.run? a.witness sys.initial = some m ∧ (pattern target).matches m = true := by
  simp only [ask] at hask
  split at hask
  · simp at hask
  · simp only [Reply.mk.injEq, Option.some.injEq, and_true] at hask
    subst hask
    exact exists_run?_of_reach hnodup (stateLimit_pos maxStates) hreachable

/-! ## Deciding reachability -/

namespace Discovery

open Marking (Agree)

variable {sys : CounterSystem} {d : Discovery} {wanted : Marking → Bool} {id : Nat}

theorem Hit.shortestRun
    (hs : sys.WellNamed) (hwanted : ∀ a b, Agree a b → wanted a = true → wanted b = true)
    (h : d.Hit sys wanted id) : sys.ShortestRun wanted (d.pathTo id) := by
  obtain ⟨head, hexplored⟩ := h.explored
  obtain ⟨m, hm, hlast⟩ := h.wanted_last
  exact hexplored.shortestRun_pathTo hs hwanted hm hlast h.unwanted

/-- When every state is expanded and none is wanted, no reachable marking is. -/
theorem Clean.unwanted_of_reachable
    (hs : sys.WellNamed) (hwanted : ∀ a b, Agree a b → wanted a = true → wanted b = true)
    (h : d.Clean wanted) (hexplored : d.Explored sys d.size) {m : Marking}
    (hm : sys.Reachable m) : wanted m = false := by
  obtain ⟨id, hfind⟩ := hexplored.exists_find?_of_reachable hs hm
  obtain ⟨m', hm', hagree⟩ := hexplored.exists_agree hs hm hfind
  rw [Bool.eq_false_iff]
  intro htrue
  have hfalse := h id m' hm'
  rw [hwanted m m' hagree htrue] at hfalse
  exact Bool.noConfusion hfalse

end Discovery

/-- When a search comes to an end by itself, it has found out whether a reachable
marking is wanted. -/
theorem reach_satisfied_iff
    {sys : CounterSystem} (hs : sys.WellNamed) {limit : Nat} (hlimit : 1 ≤ limit)
    {allowance : Allowance} {wanted : Marking → Bool}
    (hwanted : ∀ a b, Marking.Agree a b → wanted a = true → wanted b = true)
    (hstop : (reach sys limit allowance wanted).2 = none) :
    (reach sys limit allowance wanted).1.satisfied = true ↔
      ∃ m, sys.Reachable m ∧ wanted m = true := by
  obtain ⟨-, hsettles⟩ := search_spec sys hlimit allowance wanted
  rw [reach_eq] at hstop ⊢
  generalize search sys limit allowance wanted = outcome at hsettles hstop ⊢
  obtain ⟨d, e⟩ := outcome
  cases e with
  | found id =>
      obtain ⟨m, hrun, hm⟩ := (hsettles.shortestRun hs hwanted).leads
      exact iff_of_true rfl ⟨m, CounterSystem.Reachable.initial.run hrun, hm⟩
  | excluded =>
      obtain ⟨hexplored, hclean⟩ := hsettles
      refine iff_of_false Bool.false_ne_true ?_
      rintro ⟨m, hreachable, hm⟩
      have hunwanted := hclean.unwanted_of_reachable hs hwanted hexplored hreachable
      rw [hunwanted] at hm
      exact Bool.noConfusion hm
  | stopped why => simp [SearchEnd.stop?] at hstop

theorem statesChecked_searchReport (d : Discovery) (e : SearchEnd) :
    (searchReport d e).statesChecked = d.size := by
  cases e with
  | found id => rfl
  | excluded => rfl
  | stopped why => cases why <;> rfl

/-- A search that is not cancelled finds the shortest way to a marking that
matches, excludes such markings, or runs out of room for the reachable ones. -/
theorem reach_decides
    {sys : CounterSystem} (hsys : sys.Obtained) (p : Pattern) {maxStates : Int}
    (hmax : 1 ≤ maxStates) :
    ∃ result stop,
      reach sys (stateLimit maxStates) .unlimited p.matches = (result, stop) ∧
        (result.statesChecked : Int) ≤ maxStates ∧
        (result.satisfied = true ∧ stop = none ∧ sys.ShortestRun p.matches result.witness ∨
          result.satisfied = false ∧ stop = none ∧
            (∀ m, sys.Reachable m → p.matches m = false) ∨
          result.satisfied = false ∧ stop = some (.limit maxStates.toNat) ∧
            ∃ ms, sys.DistinctStates ms ∧ maxStates < (ms.length : Int)) := by
  have hs := hsys.wellNamed
  have hlimit : stateLimit maxStates = maxStates.toNat := if_neg (by omega)
  obtain ⟨hsize, hsettles⟩ :=
    search_spec sys (stateLimit_pos maxStates) .unlimited p.matches
  have hwanted := fun a b => p.matches_of_agree (a := a) (b := b)
  rw [hlimit] at hsize hsettles ⊢
  rw [reach_eq]
  generalize search sys maxStates.toNat .unlimited p.matches = outcome at hsize hsettles ⊢
  obtain ⟨d, e⟩ := outcome
  refine ⟨_, _, rfl, ?_, ?_⟩
  · have hle : d.size ≤ maxStates.toNat := hsize
    rw [statesChecked_searchReport]
    show (d.size : Int) ≤ maxStates
    omega
  · cases e with
    | found id => exact .inl ⟨rfl, rfl, hsettles.shortestRun hs hwanted⟩
    | excluded =>
        obtain ⟨hexplored, hclean⟩ := hsettles
        exact .inr (.inl ⟨rfl, rfl, fun m => hclean.unwanted_of_reachable hs hwanted hexplored⟩)
    | stopped why =>
        cases why with
        | limit n =>
            obtain ⟨rfl, hfull, head, hexplored, m, hm, hnew⟩ := hsettles
            refine .inr (.inr ⟨rfl, rfl, m :: d.markings,
              hexplored.distinctStates_cons hm hnew, ?_⟩)
            rw [List.length_cons, Discovery.length_markings, hfull]
            omega
        | cancelled => exact absurd rfl hsettles

theorem reach_decides_lift :
    ∃ sys, CounterSystem.read liftText = .ok sys ∧ sys.Obtained ∧ (1 : Int) ≤ 3 ∧
      ∃ result stop,
        reach sys (stateLimit 3) .unlimited (Pattern.covers (.ofList [("high", 2)])).matches =
            (result, stop) ∧
          (result.statesChecked : Int) ≤ 3 ∧
          (result.satisfied = true ∧ stop = none ∧
              sys.ShortestRun (Pattern.covers (.ofList [("high", 2)])).matches result.witness ∨
            result.satisfied = false ∧ stop = none ∧
              (∀ m, sys.Reachable m →
                (Pattern.covers (.ofList [("high", 2)])).matches m = false) ∨
            result.satisfied = false ∧ stop = some (.limit 3) ∧
              ∃ ms, sys.DistinctStates ms ∧ (3 : Int) < (ms.length : Int)) := by
  obtain ⟨sys, hread⟩ := exists_read_liftText
  exact ⟨sys, hread, .read hread, by decide,
    reach_decides (.read hread) (.covers (.ofList [("high", 2)])) (by decide)⟩

end Population
