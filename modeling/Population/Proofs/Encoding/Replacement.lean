import Population.Proofs.Encoding.Abstraction

/-!
# Firing as replacement of multisets

A global transition may name a state several times, on one side or on both, and
its environment state may be an agent state as well.  Whatever the pattern, its
guarded transition fires where every state has as many tokens as the before side
has occurrences, and replaces these occurrences by those of the after side.  All
is asked for before anything is taken and all is taken before anything is given,
so no counter becomes negative on the way.  A guard is a conjunction and additions
commute; the order in which weights were listed therefore does not matter.
-/

namespace Population

/-! ## Order -/

theorem Guard.holds_perm {guard guard' : Guard} (h : guard.Perm guard') (m : Marking) :
    guard.holds m = guard'.holds m :=
  h.all_eq

/-- A transition fires alike with its comparisons and updates in any order. -/
theorem Transition.fire?_perm
    {t t' : Transition} (hguard : t.guard.Perm t'.guard) (hupdates : t.updates.Perm t'.updates)
    (m : Marking) : t.fire? m = t'.fire? m := by
  simp only [Transition.fire?, Guard.holds_perm hguard, Updates.apply_perm hupdates]

namespace Encoding

variable {g : GlobalTransition} {m : Marking}

/-! ## Replacement -/

/-- No counter overflows when `g` fires at `m`: neither a weight of the before side,
which counts occurrences, nor a sum, where everything that is asked for is there. -/
structure NoOverflow (g : GlobalTransition) (m : Marking) : Prop where
  before_lt : ∀ s, g.before.count s < 2 ^ 63
  sum_lt : (∀ s, (g.before.count s : Int) ≤ m.value s) →
    ∀ s, m.value s - g.before.count s + g.after.count s < 2 ^ 63

/-- At `m` a transition replaces the before side of `g` by its after side. -/
structure Replaces (t : Transition) (g : GlobalTransition) (m : Marking) : Prop where
  /-- It fires exactly where every occurrence on the before side has its token. -/
  fires_iff : (∃ next, t.fire? m = some next) ↔ ∀ s, (g.before.count s : Int) ≤ m.value s
  /-- It takes the occurrences before and gives the occurrences after. -/
  value_eq : ∀ next, t.fire? m = some next →
    ∀ s, next.value s = m.value s - g.before.count s + g.after.count s
  /-- What its guard accepts leaves no counter negative. -/
  nonNegative_of_holds : t.guard.holds m = true → (t.updates.apply m).nonNegative = true

theorem guarded_replaces
    (hm : m.nonNegative = true) (h : NoOverflow g m) (name : Text) :
    Replaces (guarded name g) g m := by
  have hholds := guarded_holds_iff h.before_lt (Marking.nonNegative_iff.mp hm) name
  have hvalue : (guarded name g).guard.holds m = true → ∀ s,
      ((guarded name g).updates.apply m).value s =
        m.value s - g.before.count s + g.after.count s := by
    intro hguard
    have hcover : Covers m g := hholds.mp hguard
    have hroom := h.sum_lt hcover
    exact value_apply_guarded h.before_lt (hcover.count_after_lt hroom)
      (guarded_exact hcover hroom name)
  have hnonneg : (guarded name g).guard.holds m = true →
      ((guarded name g).updates.apply m).nonNegative = true := by
    intro hguard
    rw [Marking.nonNegative_iff]
    intro s
    have hle := hholds.mp hguard s
    rw [hvalue hguard s]
    omega
  refine ⟨⟨?_, ?_⟩, ?_, hnonneg⟩
  · rintro ⟨next, hfire⟩
    exact hholds.mp (Transition.fire?_eq_some_iff.mp hfire).1
  · intro hcover
    have hguard := hholds.mpr hcover
    exact ⟨_, Transition.fire?_eq_some_iff.mpr ⟨hguard, rfl, hnonneg hguard⟩⟩
  · intro next hfire
    obtain ⟨hguard, rfl, -⟩ := Transition.fire?_eq_some_iff.mp hfire
    exact hvalue hguard

/-! ## The transitions of an encoding -/

/-- The global transition at a position has its guarded transition two places later,
behind the joining and the departing of agents. -/
theorem Encodes.getElem?_transitions
    {enc : Encoding} {d : Description} {globals : List GlobalTransition} {bound : Int64}
    (h : enc.Encodes d globals bound) {i : Nat} (hg : globals[i]? = some g) :
    enc.globals[i]? = some (globalName (i + 1), g) ∧
      enc.system.transitions[i + 2]? = some (guarded (globalName (i + 1)) g) := by
  have hnamed : (nameGlobals globals)[i]? = some (globalName (i + 1), g) := by
    rw [nameGlobals, List.getElem?_map, List.getElem?_zipIdx, hg, Nat.add_comm i 1]
    rfl
  refine ⟨by rw [h.globals_eq, hnamed], ?_⟩
  rw [h.transitions_eq, transitions, List.getElem?_cons_succ, List.getElem?_cons_succ,
    List.getElem?_map, hnamed]
  rfl

end Encoding

/-- Firing the transition made from a global one is multiset replacement, whatever
names its sides repeat or share, and in whatever order its guard and its updates are
written. -/
theorem encoded_transition_replaces
    {d : Description} {globals : List GlobalTransition} {opts : EncodingOptions}
    {enc : Encoding} (hencode : encode d globals opts = .ok enc)
    {i : Nat} {g : GlobalTransition} (hg : globals[i]? = some g) :
    ∃ t, enc.system.transitions[i + 2]? = some t ∧ enc.globals[i]? = some (t.name, g) ∧
      (∀ m : Marking, m.nonNegative = true → Encoding.NoOverflow g m →
        Encoding.Replaces t g m) ∧
      ∀ (guard : Guard) (updates : Updates), guard.Perm t.guard → updates.Perm t.updates →
        ∀ m, (Transition.mk t.name guard updates).fire? m = t.fire? m := by
  obtain ⟨hnamed, ht⟩ := (Encoding.encodes_of_encode hencode).getElem?_transitions hg
  refine ⟨_, ht, hnamed, fun m hm h => Encoding.guarded_replaces hm h _, ?_⟩
  intro guard updates hguard hupdates m
  exact Transition.fire?_perm hguard hupdates m

/-- Three agents in two states, one of which is the environment's, all go to a third. -/
def crowding : GlobalTransition where
  agentBefore := ["a", "b", "a"]
  agentActions := ["go", "go", "go"]
  envBefore := "a"
  sync := "gather"
  multiset := ["go", "go", "go"]
  agentAfter := ["c", "c", "c"]
  envAfter := "e"
  line := 1

theorem encoded_transition_replaces_crowding :
    ∃ d enc t next, Description.read (relayText "done") = .ok d ∧
      encode d [crowding] ⟨3, []⟩ = .ok enc ∧ enc.system.transitions[2]? = some t ∧
      t.fire? (Marking.ofList [("a", 3), ("b", 1)]) = some next ∧
      next.value "a" = 0 ∧ next.value "c" = 3 ∧
      (Transition.mk t.name t.guard.reverse t.updates.reverse).fire?
        (Marking.ofList [("a", 3), ("b", 1)]) = some next := by
  obtain ⟨d, hread, -⟩ := Description.exists_eq_ok_of_any
    (x := Description.read (relayText "done")) (p := fun _ => true) (by decide +kernel)
  have hbound : (0 : Int64) ≤ 3 := by decide
  obtain ⟨enc, hencode, -, -⟩ :=
    Encoding.exists_encode (Description.read_wellFormed hread) [crowding] hbound []
  obtain ⟨t, ht, -, hreplaces, hreorder⟩ :=
    encoded_transition_replaces hencode (i := 0) (g := crowding) rfl
  have hnonneg : (Marking.ofList [("a", 3), ("b", 1)]).nonNegative = true := by decide
  have hsmall : ∀ s, (Marking.ofList [("a", 3), ("b", 1)]).value s ≤ 3 := by
    intro s
    change (((Marking.empty.set "a" 3).set "b" 1).get s).toInt ≤ 3
    rw [Marking.get_set, Marking.get_set]
    split
    · decide
    · split
      · decide
      · change (0 : Int64).toInt ≤ 3
        decide
  have hoverflow : Encoding.NoOverflow crowding (Marking.ofList [("a", 3), ("b", 1)]) := by
    have hslim : crowding.Slim := ⟨by decide, by decide⟩
    refine ⟨hslim.count_before_lt, fun _ s => ?_⟩
    have hle := hsmall s
    have hafter : crowding.after.count s ≤ 4 := List.count_le_length
    omega
  have hcover : ∀ s, (crowding.before.count s : Int) ≤
      (Marking.ofList [("a", 3), ("b", 1)]).value s := by
    intro s
    by_cases hs : s ∈ crowding.before
    · have hnames : ∀ s ∈ crowding.before, (crowding.before.count s : Int) ≤
          (Marking.ofList [("a", 3), ("b", 1)]).value s := by decide
      exact hnames s hs
    · rw [List.count_eq_zero.mpr hs]
      exact Marking.nonNegative_iff.mp hnonneg s
  have hmarking := hreplaces _ hnonneg hoverflow
  obtain ⟨next, hfire⟩ := hmarking.fires_iff.mpr hcover
  refine ⟨d, enc, t, next, hread, hencode, ht, hfire, ?_, ?_, ?_⟩
  · rw [hmarking.value_eq next hfire]
    decide
  · rw [hmarking.value_eq next hfire]
    decide
  · rw [hreorder _ _ t.guard.reverse_perm t.updates.reverse_perm, hfire]

end Population
