import Population.StateSpace.Path
import Population.Proofs.StateSpace.Graph

/-!
# Walks along recorded edges

An expansion gives new markings their numbers in the order of the firings, and it
records an edge for every firing.  So whoever follows the edges of the states in
order comes upon the states in the order of their numbers, and upon each one along
the edge that discovered it.  A walk through a state space that was built goes the
ways of the discovery and comes to every state, wherever the exploration was
stopped.
-/

namespace Population

open Discovery

namespace StateSpace

variable {sys : CounterSystem} {d : Discovery} {head source k k' : Nat} {m : Marking}
  {es : List Edge} {edges : Array (List Edge)}

/-! ## Numbers in the order of edges -/

/-- The edges of a state are followed in order, with the states below `k` known in the
beginning and those below `k'` in the end: each edge leads to a known state, or it is
the one that discovered the state with the next number. -/
inductive Unfolds (d : Discovery) (source : Nat) : Nat → List Edge → Nat → Prop
  | nil {k : Nat} : Unfolds d source k [] k
  | known {k k' : Nat} {e : Edge} {es : List Edge} (he : e.target < k)
      (hes : Unfolds d source k es k') : Unfolds d source k (e :: es) k'
  | fresh {k k' : Nat} {m : Marking} {t : Text} {es : List Edge}
      (hn : d.nodes[k]? = some ⟨m, source, t⟩) (hes : Unfolds d source (k + 1) es k') :
      Unfolds d source k (⟨t, k⟩ :: es) k'

/-- No more states are discovered than there are edges. -/
theorem Unfolds.le_add_length (h : Unfolds d source k es k') : k' ≤ k + es.length := by
  induction h with
  | nil => exact Nat.le_refl _
  | known _ _ ih =>
      rw [List.length_cons]
      omega
  | fresh _ _ ih =>
      rw [List.length_cons]
      omega

theorem Unfolds.extend {d' : Discovery} (hext : d.Extends d') (h : Unfolds d source k es k') :
    Unfolds d' source k es k' := by
  induction h with
  | nil => exact .nil
  | known he _ ih => exact .known he ih
  | fresh hn _ ih => exact .fresh (hext _ _ hn) ih

theorem unfolds_followAll
    (h : d.Explored sys head) (hhead : d.marking? head = some m) {steps : List Step}
    (hsteps : ∀ step ∈ steps, step ∈ sys.fireable m) :
    Unfolds (followAll head d steps).1 head d.size (followAll head d steps).2
      (followAll head d steps).1.size := by
  induction steps generalizing d with
  | nil => exact .nil
  | cons step rest ih =>
      obtain ⟨hstep, hrest⟩ := List.forall_mem_cons.mp hsteps
      simp only [followAll]
      cases hfind : d.find? step.marking with
      | some id =>
          rw [follow_of_known hfind]
          obtain ⟨n, hn, -⟩ := (h.find_iff step.marking id).mp hfind
          exact .known (lt_size_of_node hn) (ih h hhead hrest)
      | none =>
          rw [follow_of_new hfind]
          have hlater := ih (h.add hhead hstep hfind)
            ((extends_add head step).marking?_eq hhead) hrest
          rw [size_add] at hlater
          exact .fresh (extends_followAll head _ rest _ _ (nodes_add_size head step)) hlater

/-- Before state `i` is expanded there are `known i` states, among them state `i`
itself, and its edges unfold the next ones. -/
structure NumberedBy (known : Nat → Nat) (d : Discovery) (edges : Array (List Edge)) : Prop where
  first : known 0 = 1
  last : known edges.size = d.size
  ahead : ∀ i < edges.size, i < known i
  unfolds : ∀ i es, edges[i]? = some es → Unfolds d i (known i) es (known (i + 1))

/-- The states have their numbers in the order in which the edges lead to them. -/
def Numbered (d : Discovery) (edges : Array (List Edge)) : Prop :=
  ∃ known, NumberedBy known d edges

theorem numbered_start (initial : Marking) : Numbered (start initial) #[] :=
  ⟨fun _ => 1, {
    first := rfl
    last := rfl
    ahead := fun i hi => absurd hi (Nat.not_lt_zero i)
    unfolds := fun i es hes => by simp at hes }⟩

/-- The next state is expanded. -/
theorem Numbered.expand
    (h : Numbered d edges) (hexplored : d.Explored sys edges.size)
    (hhead : d.marking? edges.size = some m) :
    Numbered (followAll edges.size d (sys.fireable m)).1
      (edges.push (followAll edges.size d (sys.fireable m)).2) := by
  obtain ⟨known, h⟩ := h
  have hext := extends_followAll edges.size d (sys.fireable m)
  have hlast := unfolds_followAll hexplored hhead
    (fun _ hs => hs : ∀ s ∈ sys.fireable m, s ∈ _)
  generalize followAll edges.size d (sys.fireable m) = next at hext hlast ⊢
  obtain ⟨d', es⟩ := next
  -- Only the number of states behind the new edges is added; what earlier edges unfold stays.
  refine ⟨Function.update known (edges.size + 1) d'.size,
    { first := ?first, last := ?last, ahead := ?ahead, unfolds := ?unfolds }⟩
  case first => rw [Function.update_of_ne (Nat.succ_ne_zero _).symm, h.first]
  case last => rw [Array.size_push, Function.update_self]
  case ahead =>
    intro i hi
    rw [Array.size_push] at hi
    rw [Function.update_of_ne (Nat.ne_of_lt hi)]
    by_cases hold : i < edges.size
    · exact h.ahead i hold
    · obtain rfl : i = edges.size := by omega
      rw [h.last]
      exact lt_size_of_marking? hhead
  case unfolds =>
    intro i es' hes
    rw [Array.getElem?_push] at hes
    split at hes
    next hi =>
      cases hes
      rw [hi, Function.update_self, Function.update_of_ne (Nat.succ_ne_self _).symm, h.last]
      exact hlast
    next hi =>
      have hold : i < edges.size := (Array.getElem?_eq_some_iff.mp hes).1
      rw [Function.update_of_ne (by omega), Function.update_of_ne (by omega)]
      exact (h.unfolds i es' hes).extend hext

theorem numbered_build (sys : CounterSystem) (limit : Nat) (allowance : Allowance) :
    Numbered (build sys limit allowance).1.found (build sys limit allowance).1.edges := by
  have h : Charted sys (build sys limit allowance).1.found (build sys limit allowance).1.edges ∧
      Numbered (build sys limit allowance).1.found (build sys limit allowance).1.edges :=
    explore_induct (P := fun d edges => Charted sys d edges ∧ Numbered d edges)
      (fun _ _ _ h hm => ⟨h.1.expand hm, h.2.expand h.1.explored hm⟩)
      ⟨charted_start sys, numbered_start sys.initial⟩
  exact h.2

/-- What is known about a state space that was built. -/
theorem exists_build (sys : CounterSystem) (maxStates : Int) (allowance : Allowance) :
    ∃ s stop, build sys (stateLimit maxStates) allowance = (s, stop) ∧
      Charted sys s.found s.edges ∧ Numbered s.found s.edges ∧
      s.Ends (stateLimit maxStates) allowance stop := by
  obtain ⟨hcharted, hends⟩ := build_spec sys (stateLimit_pos maxStates) allowance
  exact ⟨_, _, rfl, hcharted, numbered_build sys _ allowance, hends⟩

/-- Every state but the first has an edge of its own. -/
theorem NumberedBy.known_le
    {known : Nat → Nat} (h : NumberedBy known d edges) {i : Nat} (hi : i ≤ edges.size) :
    known i ≤ (edges.toList.take i).flatten.length + 1 := by
  induction i with
  | zero => exact h.first.le
  | succ i ih =>
      have hlt : i < edges.toList.length := hi
      have hes : edges[i]? = some edges.toList[i] := by
        rw [← Array.getElem?_toList, List.getElem?_eq_getElem hlt]
      have hle := ih (Nat.le_of_succ_le hi)
      have hgrow := (h.unfolds i _ hes).le_add_length
      rw [← List.take_concat_get' _ _ hlt, List.flatten_append, List.length_append,
        List.flatten_singleton]
      omega

end StateSpace

/-! ## Following the edges -/

/-- The states below `k` were met in order, each one along the firings that
discovered it. -/
structure Walk.Follows (w : Walk) (d : Discovery) (k : Nat) : Prop where
  trail : ∀ i < k, w.trails[i]? = some ⟨i, d.pathTo i⟩
  size_eq : w.trails.size = k
  met_iff : ∀ i, w.met.contains i = true ↔ i < k

namespace Walk

variable {d : Discovery} {w : Walk} {k : Nat}

theorem follows_start (d : Discovery) : (start 0).Follows d 1 where
  trail i hi := by
    obtain rfl : i = 0 := by omega
    rfl
  size_eq := rfl
  met_iff i := by
    simp only [start, Std.TreeSet.contains_insert, Std.TreeSet.contains_emptyc, Bool.or_false,
      beq_iff_eq, Nat.compare_eq_eq]
    omega

theorem Follows.add (h : w.Follows d k) : (w.add ⟨k, d.pathTo k⟩).Follows d (k + 1) where
  trail i hi := by
    rw [Walk.add, Array.getElem?_push, h.size_eq]
    split
    next hlast => rw [hlast]
    next hold => exact h.trail i (by omega)
  size_eq := by rw [Walk.add, Array.size_push, h.size_eq]
  met_iff i := by
    simp only [Walk.add, Std.TreeSet.contains_insert, Bool.or_eq_true, h.met_iff, beq_iff_eq,
      Nat.compare_eq_eq]
    omega

/-- Along the edges of a state that was met, the walk comes to the goal or to the
states that these edges discovered. -/
theorem Follows.along
    {sys : CounterSystem} (htraced : d.Traced sys) {source goal k' : Nat} {es : List Edge}
    (hes : StateSpace.Unfolds d source k es k') (h : w.Follows d k) (hpos : 0 < k)
    (hgoal : k ≤ goal) :
    (w.along goal (d.pathTo source) es).2 = some (d.pathTo goal) ∨
      k' ≤ goal ∧ (w.along goal (d.pathTo source) es).2 = none ∧
        (w.along goal (d.pathTo source) es).1.Follows d k' := by
  -- The induction is on how the edges unfold: a state is met for the first time exactly where
  -- it was discovered, so the firings that lead there are those of the discovery.
  induction hes generalizing w with
  | nil => exact .inr ⟨hgoal, rfl, h⟩
  | @known k k' e es he _ ih =>
      rw [Walk.along, if_pos ((h.met_iff e.target).mpr he)]
      exact ih h hpos hgoal
  | @fresh k k' m t es hn _ ih =>
      have hnew : ¬w.met.contains k = true := by
        rw [h.met_iff]
        exact Nat.lt_irrefl k
      have hpath : d.pathTo source ++ [t] = d.pathTo k := (htraced.pathTo_eq_concat hpos hn).symm
      rw [Walk.along, if_neg hnew, hpath]
      by_cases hreached : k = goal
      · rw [if_pos hreached, hreached]
        exact .inl rfl
      · rw [if_neg hreached]
        exact ih h.add (Nat.succ_pos k) (by omega)

end Walk

namespace StateSpace

variable {sys : CounterSystem} {s : StateSpace}

/-- Behind the last expanded state there is none that was not met before. -/
theorem NumberedBy.lt_size
    {known : Nat → Nat} {d : Discovery} {edges : Array (List Edge)} (h : NumberedBy known d edges)
    {head goal : Nat} (hhead : head ≤ edges.size) (hgoal : known head ≤ goal)
    (hsize : goal < d.size) : head < edges.size := by
  refine Nat.lt_of_le_of_ne hhead ?_
  rintro rfl
  rw [h.last] at hgoal
  exact Nat.not_lt.mpr hgoal hsize

theorem walkFrom_eq_pathTo
    (htraced : s.found.Traced sys) {known : Nat → Nat} (h : NumberedBy known s.found s.edges)
    {fuel goal head : Nat} {w : Walk} (hw : w.Follows s.found (known head))
    (hhead : head ≤ s.edges.size) (hgoal : known head ≤ goal) (hsize : goal < s.size)
    (hfuel : s.edges.size ≤ fuel + head) :
    s.walkFrom goal fuel head w = some (s.found.pathTo goal) := by
  have hlt := h.lt_size hhead hgoal hsize
  induction fuel generalizing head w with
  | zero => omega
  | succ fuel ih =>
      have hahead := h.ahead head hlt
      have halong := hw.along htraced (h.unfolds head _ (getElem?_edges hlt)) (by omega) hgoal
      simp only [walkFrom, hw.trail head hahead]
      generalize w.along goal (s.found.pathTo head) (s.edgesFrom head) = outcome at halong ⊢
      obtain ⟨w', result⟩ := outcome
      rcases halong with hfound | ⟨hgoal', hnone, hw'⟩
      · simp only at hfound
        rw [hfound]
      · simp only at hnone hw'
        rw [hnone]
        exact ih hw' hlt hgoal' (by omega) (h.lt_size hlt hgoal' hsize)

/-- There is a path to every state, and the first one that a walk comes upon is the
one by which the state was discovered. -/
theorem findPath_eq_pathTo
    (h : Charted sys s.found s.edges) (hnumbered : Numbered s.found s.edges) {id : Nat}
    (hid : id < s.size) : s.findPath 0 id = some (s.found.pathTo id) := by
  unfold findPath
  split
  next hzero =>
    rw [← hzero, pathTo, pathFrom_zero]
  next hne =>
    obtain ⟨known, hknown⟩ := hnumbered
    have hfuel : s.edges.size ≤ s.edgeCount + 1 := by
      have hle := hknown.known_le (Nat.le_refl s.edges.size)
      rw [hknown.last, ← Array.length_toList, List.take_length] at hle
      exact Nat.le_trans h.explored.head_le hle
    have hstart := Walk.follows_start s.found
    rw [← hknown.first] at hstart
    refine walkFrom_eq_pathTo h.explored.traced hknown hstart (Nat.zero_le _) ?_ hid hfuel
    rw [hknown.first]
    omega

end StateSpace

end Population
