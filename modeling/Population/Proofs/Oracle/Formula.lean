import Population.Oracle.External
import Population.Proofs.Encoding.Abstraction
import Population.Proofs.StateSpace.Search

/-!
# The question to an oracle

Both oracles are asked whether a target is reachable.  The explicit one compares
markings with the target, and the external tool is given a formula: a conjunction
over the declared counters.  The formula is a guard that was written without
blanks around its operators, so it can be read, and it says of every declared
counter but that of active agents what the target says.  Nothing else is mentioned
by the reachable markings of an encoding, nor by a target over its counters, so
the formula holds where the explicit oracle finds its target.
-/

namespace Population

variable {sys : CounterSystem} {target m : Marking}

/-! ## The formula as a guard -/

/-- Every declared counter but that of active agents has its value in the target. -/
def question (sys : CounterSystem) (target : Marking) : Guard :=
  (sys.counterNames.filter fun n => n != reservedName).map fun n => ⟨n, .eq, target.get n⟩

theorem question_plain (hs : sys.WellNamed) (target : Marking) :
    (question sys target).IsPlain := by
  intro c hc
  obtain ⟨n, hn, rfl⟩ := List.mem_map.mp hc
  obtain ⟨v, hv, rfl⟩ := List.mem_map.mp (List.mem_filter.mp hn).1
  exact ⟨hs.counter_valid v hv, by simp [Comparator.known]⟩

/-- The formula is written without blanks around the operators. -/
theorem formula_eq (sys : CounterSystem) (target : Marking) :
    formula sys target =
      if question sys target = [] then Text.ofString "true"
      else (question sys target).joined [] := by
  have hatom : ∀ n : Text, Text.cat [n, "==", Text.ofInt64 (target.get n)] =
      Comparison.spelled [] ⟨n, .eq, target.get n⟩ := by
    intro n
    simp only [Comparison.spelled, Text.cat_cons, Text.cat_nil, List.append_nil, List.nil_append]
    rfl
  simp only [formula, question, Guard.joined, List.map_map, Function.comp_def, hatom,
    List.isEmpty_iff, List.map_eq_nil_iff]

/-- The formula is read back. -/
theorem read_formula (hs : sys.WellNamed) (target : Marking) :
    Guard.read (formula sys target) = .ok (question sys target) := by
  rw [formula_eq]
  cases hquestion : question sys target with
  | nil => rfl
  | cons c rest =>
      rw [if_neg (List.cons_ne_nil c rest)]
      exact Guard.read_joined (by decide) (hquestion ▸ question_plain hs target)

theorem question_holds_iff :
    (question sys target).holds m = true ↔
      ∀ n ∈ sys.counterNames, n ≠ reservedName → m.get n = target.get n := by
  simp [question, Guard.holds, Comparison.holds, Comparator.holds, or_iff_not_imp_left]

/-- Where nothing but declared counters is mentioned, the formula holds exactly
when the target is met. -/
theorem question_holds_eq
    (hm : m.domain ⊆ sys.counterNames) (htarget : target.domain ⊆ sys.counterNames) :
    (question sys target).holds m = (Explicit.pattern target).matches m := by
  rw [Bool.eq_iff_iff, question_holds_iff, Explicit.pattern, Pattern.exactly_matches_iff]
  constructor
  · intro h n hn
    by_cases hdeclared : n ∈ sys.counterNames
    · exact h n hdeclared (by simpa using hn)
    · rw [Marking.get_of_not_mem_domain fun hmem => hdeclared (hm hmem),
        Marking.get_of_not_mem_domain fun hmem => hdeclared (htarget hmem)]
  · intro h n _ hn
    exact h n (by simpa using hn)

/-! ## Asking -/

/-- The tool is started with the formula or not at all. -/
theorem External.eq_of_call?
    {t : Tool} {allowance : Allowance} {path : Text} {args : List Text}
    (h : call? t allowance ⟨some sys, path, target⟩ = some args) :
    args = arguments path (formula sys target) := by
  simp only [call?, Option.bind_eq_bind] at h
  split at h
  · simp at h
  · simp only [Option.bind_some] at h
    split at h
    · simp at h
    · exact (Option.some.inj h).symm

/-- When the explicit oracle decides, it answers whether a reachable marking meets
the target. -/
theorem Explicit.reachable_iff_of_ask
    (hs : sys.WellNamed) {maxStates : Int} {allowance : Allowance} {path : Text} {a : Answer}
    (hask : ask maxStates allowance ⟨some sys, path, target⟩ = ⟨some a, none⟩) :
    a.reachable = true ↔ ∃ m, sys.Reachable m ∧ (pattern target).matches m = true := by
  simp only [ask] at hask
  split at hask
  · simp at hask
  next hstop =>
    simp only [Reply.mk.injEq, Option.some.injEq, and_true] at hask
    subst hask
    exact reach_satisfied_iff hs (stateLimit_pos maxStates)
      (fun _ _ => (pattern target).matches_of_agree) hstop

/-- Both oracles are asked the same question: the formula for the external tool
can be read, it holds at the reachable markings that meet the target, and when the
explicit oracle decides, it answers whether some reachable marking satisfies the
formula. -/
theorem oracles_asked_alike
    {text : Text} {d : Description} (hread : Description.read text = .ok d)
    (opts : CompositionOptions) {bound : Int64} (hbound : 0 ≤ bound) (name : Text) :
    ∃ enc, encode d (compose d opts).transitions ⟨bound, name⟩ = .ok enc ∧
      ∀ target : Marking, target.domain ⊆ enc.system.counterNames →
        ∃ g, Guard.read (formula enc.system target) = .ok g ∧
          (∀ m, enc.system.Reachable m →
            (g.holds m = true ↔ (Pattern.exactly target [reservedName]).matches m = true)) ∧
          ∀ (path : Text) (allowance : Allowance),
            (∀ t args, External.call? t allowance ⟨some enc.system, path, target⟩ = some args →
              args = External.arguments path (formula enc.system target)) ∧
            ∀ maxStates a,
              Explicit.ask maxStates allowance ⟨some enc.system, path, target⟩ =
                ⟨some a, none⟩ →
              (a.reachable = true ↔ ∃ m, enc.system.Reachable m ∧ g.holds m = true) := by
  obtain ⟨enc, hencode, h⟩ := exists_abstracts hread opts hbound name
  refine ⟨enc, hencode, ?_⟩
  intro target htarget
  have hholds : ∀ m, enc.system.Reachable m →
      (question enc.system target).holds m = (Explicit.pattern target).matches m := by
    intro m hm
    obtain ⟨c, -, -, htally⟩ := exists_population h hm
    refine question_holds_eq (fun n hn => ?_) htarget
    rw [CounterSystem.counterNames, h.encodes.counters_eq]
    exact (htally.mem_domain n).mp hn
  refine ⟨question enc.system target, read_formula h.wellNamed target, ?_, ?_⟩
  · intro m hm
    rw [hholds m hm, Explicit.pattern]
  · intro path allowance
    refine ⟨fun t args => External.eq_of_call?, ?_⟩
    intro maxStates a hask
    rw [Explicit.reachable_iff_of_ask h.wellNamed hask]
    refine exists_congr fun m => and_congr_right fun hm => ?_
    rw [hholds m hm]

/-- A hazard of the relay is reachable, and its formula is satisfied. -/
theorem oracles_asked_alike_relay :
    ∃ d enc target a, Description.read (relayText "done") = .ok d ∧ (0 : Int64) ≤ 2 ∧
      encode d (compose d ⟨1, false⟩).transitions ⟨2, []⟩ = .ok enc ∧
      target.domain ⊆ enc.system.counterNames ∧
      Explicit.ask 100 .unlimited ⟨some enc.system, [], target⟩ = ⟨some a, none⟩ ∧
      a.reachable = true ∧
      ∃ g, Guard.read (formula enc.system target) = .ok g ∧
        ∃ m, enc.system.Reachable m ∧ g.holds m = true ∧
          (Pattern.exactly target [reservedName]).matches m = true := by
  obtain ⟨d, hread, hfound⟩ := Description.exists_eq_ok_of_any
    (x := Description.read (relayText "done"))
    (p := fun d => (encode d (compose d ⟨1, false⟩).transitions ⟨2, []⟩).toOption.any fun enc =>
      enc.hazards.any fun u =>
        let reply := Explicit.ask 100 .unlimited ⟨some enc.system, [], u.marking⟩
        decide (u.marking.domain ⊆ enc.system.counterNames) && reply.error.isNone &&
          reply.answer.any (·.reachable)) (by decide +kernel)
  obtain ⟨enc, hencode, hasked⟩ :=
    oracles_asked_alike hread ⟨1, false⟩ (by decide : (0 : Int64) ≤ 2) []
  simp only [hencode, Except.toOption, Option.any_some, List.any_eq_true, Bool.and_eq_true,
    decide_eq_true_eq, Option.isNone_iff_eq_none, Option.any_eq_true] at hfound
  obtain ⟨u, -, ⟨hdeclared, herror⟩, a, hanswer, hreachable⟩ := hfound
  have hask : Explicit.ask 100 .unlimited ⟨some enc.system, [], u.marking⟩ =
      ⟨some a, none⟩ := by
    rw [← herror, ← hanswer]
  obtain ⟨g, hg, hholds, hask'⟩ := hasked u.marking hdeclared
  obtain ⟨m, hm, hsatisfied⟩ := ((hask' [] .unlimited).2 100 a hask).mp hreachable
  exact ⟨d, enc, u.marking, a, hread, by decide, hencode, hdeclared, hask, hreachable,
    g, hg, m, hm, hsatisfied, (hholds m hm).mp hsatisfied⟩

end Population
