import Population.CounterSystem.Reader
import Population.Proofs.CounterSystem.Agreement
import Population.Proofs.Encoding.Abstraction
import Population.Proofs.Guard.ReadingBack

/-!
# Names of counter systems

Counter systems come from two places: they are read from a text, or they encode
a composed description.  Either way their counters and updates are named by
identifiers, and no two transitions share a name.  So every reachable marking
mentions identifiers only, which is what keys rely on.  A system that was read
has, moreover, nothing in it that could not be written down.
-/

namespace Population

open Description (exists_of_bind_eq_ok)

/-- Names are identifiers, and those of counters and of transitions are distinct. -/
structure CounterSystem.WellNamed (s : CounterSystem) : Prop where
  counter_valid : ∀ v ∈ s.counters, Name.isValid v.name = true
  counters_nodup : s.counterNames.Nodup
  update_valid : ∀ t ∈ s.transitions, ∀ u ∈ t.updates, Name.isValid u.name = true
  transitions_nodup : (s.transitions.map (·.name)).Nodup

namespace CounterSystem

/-- A word, as the reader cuts it off. -/
def isWord : Text → Bool
  | [] => false
  | b :: rest => startsWord b && rest.all continuesWord

/-- Whatever the system consists of can be written down: its name is a word,
other names are identifiers, and guards compare by operators that exist. -/
structure Printable (s : CounterSystem) : Prop extends WellNamed s where
  name_word : isWord s.name = true
  transition_valid : ∀ t ∈ s.transitions, Name.isValid t.name = true
  guard_plain : ∀ t ∈ s.transitions, t.guard.IsPlain

end CounterSystem

/-- Firing brings in the counters that the updates name. -/
theorem Transition.domain_valid_of_fire
    {t : Transition} (ht : ∀ u ∈ t.updates, Name.isValid u.name = true) {m next : Marking}
    (hm : ∀ n ∈ m.domain, Name.isValid n = true) (hfire : t.fire? m = some next) :
    ∀ n ∈ next.domain, Name.isValid n = true := by
  obtain ⟨-, rfl, -⟩ := Transition.fire?_eq_some_iff.mp hfire
  intro n hn
  rcases Updates.mem_domain_apply.mp hn with hn | hn
  · exact hm n hn
  · obtain ⟨u, hu, rfl⟩ := List.mem_map.mp hn
    exact ht u hu

/-- A reachable marking mentions identifiers only. -/
theorem CounterSystem.WellNamed.domain_valid
    {s : CounterSystem} (h : s.WellNamed) {m : Marking} (hm : s.Reachable m) :
    ∀ n ∈ m.domain, Name.isValid n = true := by
  induction hm with
  | initial =>
      intro n hn
      rw [CounterSystem.initial, Marking.mem_domain_ofList, List.map_map] at hn
      obtain ⟨v, hv, rfl⟩ := List.mem_map.mp hn
      exact h.counter_valid v hv
  | fire _ ht hfire ih => exact Transition.domain_valid_of_fire (h.update_valid _ ht) ih hfire

/-! ## Reading guards and updates -/

theorem Guard.read_plain {t : Text} {g : Guard} (h : Guard.read t = .ok g) : g.IsPlain := by
  obtain ⟨core, atoms, parts, -, -, -, -, hatoms, rfl⟩ := Guard.read_eq_ok_iff.mp h
  have hparts := forall_right_of_forall₂ (P := fun part => ∀ c ∈ part,
    Name.isValid c.name = true ∧ c.op ∈ Comparator.known) ?_ hatoms
  · intro c hc
    obtain ⟨part, hpart, hsome⟩ := List.mem_filterMap.mp hc
    exact hparts part hpart c hsome
  · rintro atom part ⟨core, -, ⟨-, rfl⟩ | ⟨p, op, hop, -, -, rfl⟩⟩ c hc
    · cases hc
    · cases hc
      exact ⟨p.name_valid, hop⟩

theorem Updates.read_valid
    {t : Text} {us : Updates} (h : Updates.read t = .ok us) :
    ∀ u ∈ us, Name.isValid u.name = true := by
  obtain ⟨pieces, parts, -, -, hpieces, rfl⟩ := Updates.read_eq_ok_iff.mp h
  have hparts := forall_right_of_forall₂ (P := fun part => ∀ u ∈ part, Name.isValid u.name = true)
    ?_ hpieces
  · intro u hu
    obtain ⟨part, hpart, hsome⟩ := List.mem_filterMap.mp hu
    exact hparts part hpart u hsome
  · rintro piece part ⟨core, -, ⟨-, rfl⟩ | ⟨p, -, ⟨-, rfl⟩ | ⟨-, rfl⟩⟩⟩ u hu
    · cases hu
    · cases hu
      exact p.name_valid
    · cases hu
      exact p.name_valid

/-! ## Reading systems -/

namespace CounterSystem

/-- What reading one item does to a draft. -/
inductive Enters : Draft → Draft → Prop
  | counter {d d' : Draft} {name : Text} {v : Int64} (h : d.declare name v = .ok d') :
      Enters d d'
  | transition {d d' : Draft} {tr : Transition} {guardText body : Text}
      (hguard : Guard.read guardText = .ok tr.guard)
      (hupdates : Updates.read body = .ok tr.updates)
      (h : d.addTransition tr = .ok d') : Enters d d'

theorem Place.eq_ok_of_check
    {ε α : Type} {p : Place} {wrap : ε → ReadFault} {x : Except ε α} {a : α}
    (h : p.check wrap x = .ok a) : x = .ok a := by
  cases x with
  | error e => simp [Place.check, Place.fail] at h
  | ok b =>
      cases h
      rfl

theorem Enters.of_readDeclaration
    {d d' : Draft} {p p' : Place} (hok : readDeclaration d p = .ok (d', p')) : Enters d d' := by
  obtain ⟨⟨name, p₁⟩, -, hok⟩ := exists_of_bind_eq_ok hok
  obtain ⟨p₂, -, hok⟩ := exists_of_bind_eq_ok hok
  obtain ⟨⟨raw, p₃⟩, -, hok⟩ := exists_of_bind_eq_ok hok
  simp only at hok
  split at hok
  · simp [Place.fail] at hok
  · obtain ⟨d₁, hdeclare, hok⟩ := exists_of_bind_eq_ok hok
    cases hok
    exact .counter (Place.eq_ok_of_check hdeclare)

theorem Enters.of_readTransition
    {d d' : Draft} {p p' : Place} (hok : readTransition d p = .ok (d', p')) : Enters d d' := by
  obtain ⟨⟨name, p₁⟩, -, hok⟩ := exists_of_bind_eq_ok hok
  obtain ⟨p₂, -, hok⟩ := exists_of_bind_eq_ok hok
  obtain ⟨⟨guardText, p₃⟩, -, hok⟩ := exists_of_bind_eq_ok hok
  obtain ⟨guard, hguard, hok⟩ := exists_of_bind_eq_ok hok
  obtain ⟨p₄, -, hok⟩ := exists_of_bind_eq_ok hok
  obtain ⟨⟨body, p₅⟩, -, hok⟩ := exists_of_bind_eq_ok hok
  obtain ⟨updates, hupdates, hok⟩ := exists_of_bind_eq_ok hok
  obtain ⟨d₁, hadd, hok⟩ := exists_of_bind_eq_ok hok
  cases hok
  exact .transition (Place.eq_ok_of_check hguard) (Place.eq_ok_of_check hupdates)
    (Place.eq_ok_of_check hadd)

theorem enters_of_readItems
    {fuel : Nat} {d d' : Draft} {p p' : Place} (hok : readItems fuel d p = .ok (d', p')) :
    Relation.ReflTransGen Enters d d' := by
  induction fuel generalizing d p with
  | zero => simp [CounterSystem.readItems, Place.fail] at hok
  | succ fuel ih =>
      simp only [CounterSystem.readItems] at hok
      split at hok
      · simp [Place.fail] at hok
      · split at hok
        · cases hok
          exact .refl
        · obtain ⟨⟨word, p₁⟩, -, hok⟩ := exists_of_bind_eq_ok hok
          simp only at hok
          split at hok
          · obtain ⟨⟨d₁, p₂⟩, hitem, hok⟩ := exists_of_bind_eq_ok hok
            exact .head (Enters.of_readDeclaration hitem) (ih hok)
          · split at hok
            · obtain ⟨⟨d₁, p₂⟩, hitem, hok⟩ := exists_of_bind_eq_ok hok
              exact .head (Enters.of_readTransition hitem) (ih hok)
            · simp [Place.fail] at hok

theorem isWord_of_word {p p' : Place} {word : Text} (h : p.word = .ok (word, p')) :
    isWord word = true := by
  simp only [Place.word] at h
  split at h
  · simp [Place.fail] at h
  next b rest _ =>
    split at h
    next hstart =>
      cases h
      rw [isWord, hstart, Bool.true_and]
      exact List.all_takeWhile
    next => simp [Place.fail] at h

/-- A system that was read grew item by item out of its name. -/
theorem exists_enters_of_read
    {text : Text} {s : CounterSystem} (h : CounterSystem.read text = .ok s) :
    ∃ name d, isWord name = true ∧ Relation.ReflTransGen Enters (Draft.new name) d ∧
      d.system = s := by
  obtain ⟨⟨word, p₁⟩, -, h⟩ := exists_of_bind_eq_ok h
  simp only at h
  split at h
  · simp [Place.fail] at h
  · obtain ⟨⟨name, p₂⟩, hname, h⟩ := exists_of_bind_eq_ok h
    obtain ⟨p₃, -, h⟩ := exists_of_bind_eq_ok h
    obtain ⟨⟨d, p₄⟩, hitems, h⟩ := exists_of_bind_eq_ok h
    simp only at h
    split at h
    · cases h
      exact ⟨name, d, isWord_of_word hname, enters_of_readItems hitems, rfl⟩
    · simp [Place.fail] at h

/-- The tables of a draft are up to date and what it holds can be printed. -/
structure Drafted (d : Draft) : Prop where
  tabled : ∃ t, d.Tabled t
  printable : d.system.Printable

theorem drafted_new {name : Text} (hname : isWord name = true) : Drafted (Draft.new name) where
  tabled := ⟨_, Draft.tabled_new name⟩
  printable :=
    { counter_valid := by simp [Draft.new]
      counters_nodup := by simp [Draft.new, counterNames]
      update_valid := by simp [Draft.new]
      transitions_nodup := by simp [Draft.new]
      name_word := hname
      transition_valid := by simp [Draft.new]
      guard_plain := by simp [Draft.new] }

theorem Drafted.declare
    {d d' : Draft} (h : Drafted d) {name : Text} {initial : Int64}
    (hok : d.declare name initial = .ok d') : Drafted d' := by
  obtain ⟨t, ht⟩ := h.tabled
  obtain ⟨hvalid, hfresh, htabled, hsystem⟩ := ht.of_declare hok
  refine ⟨htabled, ?_⟩
  rw [hsystem]
  refine { h.printable with counter_valid := ?_, counters_nodup := ?_ }
  · intro v hv
    rcases List.mem_append.mp hv with hv | hv
    · exact h.printable.counter_valid v hv
    · rw [List.mem_singleton.mp hv]
      exact hvalid
  · have hnames : (d.system.counterNames ++ [name]).Nodup :=
      List.nodup_append'.mpr ⟨h.printable.counters_nodup, List.nodup_singleton _,
        List.disjoint_singleton.mpr hfresh⟩
    simpa [counterNames] using hnames

theorem Drafted.addTransition
    {d d' : Draft} (h : Drafted d) {tr : Transition} (hguard : tr.guard.IsPlain)
    (hupdates : ∀ u ∈ tr.updates, Name.isValid u.name = true)
    (hok : d.addTransition tr = .ok d') : Drafted d' := by
  obtain ⟨t, ht⟩ := h.tabled
  obtain ⟨hvalid, hfresh, htabled, hsystem⟩ := ht.of_addTransition hok
  have hall : ∀ {P : Transition → Prop}, (∀ t ∈ d.system.transitions, P t) → P tr →
      ∀ t ∈ d.system.transitions ++ [tr], P t := by
    intro P hold hnew t ht
    rcases List.mem_append.mp ht with ht | ht
    · exact hold t ht
    · rw [List.mem_singleton.mp ht]
      exact hnew
  refine ⟨htabled, ?_⟩
  rw [hsystem]
  refine { h.printable with
    update_valid := hall h.printable.update_valid hupdates
    transitions_nodup := ?_
    transition_valid := hall h.printable.transition_valid hvalid
    guard_plain := hall h.printable.guard_plain hguard }
  rw [List.map_append, List.nodup_append']
  exact ⟨h.printable.transitions_nodup, List.nodup_singleton _,
    List.disjoint_singleton.mpr hfresh⟩

theorem Drafted.enters {d d' : Draft} (h : Drafted d) (hstep : Enters d d') : Drafted d' := by
  cases hstep with
  | counter hdeclare => exact h.declare hdeclare
  | transition hguard hupdates hadd =>
      exact h.addTransition (Guard.read_plain hguard) (Updates.read_valid hupdates) hadd

theorem Drafted.enters_all
    {d d' : Draft} (h : Drafted d) (hrun : Relation.ReflTransGen Enters d d') : Drafted d' := by
  induction hrun with
  | refl => exact h
  | tail _ hstep ih => exact ih.enters hstep

/-- What was read can be printed. -/
theorem read_printable
    {text : Text} {s : CounterSystem} (h : CounterSystem.read text = .ok s) : s.Printable := by
  obtain ⟨name, d, hname, hrun, rfl⟩ := exists_enters_of_read h
  exact ((drafted_new hname).enters_all hrun).printable

end CounterSystem

/-! ## Encoding -/

namespace Encoding.Abstracts

variable {d : Description} {opts : CompositionOptions} {bound : Int64} {enc : Encoding}

theorem of_encode
    {text : Text} {options : EncodingOptions} (hread : Description.read text = .ok d)
    (hencode : encode d (compose d opts).transitions options = .ok enc) :
    enc.Abstracts d opts options.bound := by
  have hbound : 0 ≤ options.bound := by
    by_contra hnegative
    simp [encode, Int64.not_le.mp hnegative] at hencode
  obtain ⟨enc', hencode', h⟩ := exists_abstracts hread opts hbound options.name
  obtain rfl : enc' = enc := Except.ok.inj (hencode'.symm.trans hencode)
  exact h

section Declared

variable (h : enc.Abstracts d opts bound) {e : Text × GlobalTransition} (he : e ∈ enc.globals)
include h he

/-- What a global transition needs is declared. -/
theorem states_needs_subset : e.2.needs.states ⊆ (counters d).map (·.name) := by
  have hd := h.wellFormed
  intro s hs
  rw [map_name_counters, List.mem_append, List.mem_append]
  rcases List.mem_cons.mp (Weights.mem_states_of.mp hs) with henv | hagent
  · exact .inl (.inr (henv ▸ (h.arises he).envBefore_mem hd))
  · exact .inl (.inl ((h.arises he).agentBefore_subset hd hagent))

/-- What a global transition yields is declared. -/
theorem states_yields_subset : e.2.yields.states ⊆ (counters d).map (·.name) := by
  have hd := h.wellFormed
  intro s hs
  rw [map_name_counters, List.mem_append, List.mem_append]
  rcases List.mem_cons.mp (Weights.mem_states_of.mp hs) with henv | hagent
  · exact .inl (.inr (henv ▸ (h.arises he).envAfter_mem hd))
  · exact .inl (.inl ((h.arises he).agentAfter_subset hd hagent))

end Declared

theorem reserved_declared (d : Description) : reservedName ∈ (counters d).map (·.name) := by
  simp [map_name_counters]

theorem agentState_declared {s : Text} (hs : s ∈ d.agent.stateNames) :
    s ∈ (counters d).map (·.name) := by
  simp [map_name_counters, hs]

/-- Updates change declared counters only. -/
theorem mem_counters_of_update
    (h : enc.Abstracts d opts bound) {t : Transition} (ht : t ∈ enc.system.transitions)
    {u : Update} (hu : u ∈ t.updates) : u.name ∈ (counters d).map (·.name) := by
  have hd := h.wellFormed
  have hname : u.name ∈ t.updates.map (·.name) := List.mem_map.mpr ⟨u, hu, rfl⟩
  rcases h.mem_transitions_iff.mp ht with rfl | rfl | ⟨name, g, hmem, rfl⟩
  · simp only [spawn_updates, headcount, List.map_cons, List.map_nil, List.mem_cons,
      List.not_mem_nil, or_false] at hname
    rcases hname with hname | hname
    · exact hname ▸ agentState_declared hd.initial_mem
    · exact hname ▸ reserved_declared d
  · simp only [leave_updates, headcount, List.map_cons, List.map_nil, List.mem_cons,
      List.not_mem_nil, or_false] at hname
    rcases hname with hname | hname
    · exact hname ▸ agentState_declared hd.leave_mem
    · exact hname ▸ reserved_declared d
  · rw [guarded_updates, List.map_append, names_updatesOf, names_updatesOf] at hname
    rcases List.mem_append.mp hname with hbefore | hafter
    · exact h.states_needs_subset hmem hbefore
    · exact h.states_yields_subset hmem hafter

/-- Guards compare declared counters only, and by operators that exist. -/
theorem mem_counters_of_guard
    (h : enc.Abstracts d opts bound) {t : Transition} (ht : t ∈ enc.system.transitions)
    {c : Comparison} (hc : c ∈ t.guard) :
    c.name ∈ (counters d).map (·.name) ∧ c.op ∈ Comparator.known := by
  rcases h.mem_transitions_iff.mp ht with rfl | rfl | ⟨name, g, hmem, rfl⟩
  · rw [List.mem_singleton.mp hc]
    exact ⟨reserved_declared d, by simp [Comparator.known]⟩
  · rw [List.mem_singleton.mp hc]
    exact ⟨agentState_declared h.wellFormed.leave_mem, by simp [Comparator.known]⟩
  · obtain ⟨e, he, rfl⟩ := List.mem_map.mp hc
    exact ⟨h.states_needs_subset hmem (List.mem_map.mpr ⟨e, he, rfl⟩),
      by simp [Comparator.known]⟩

theorem wellNamed (h : enc.Abstracts d opts bound) : enc.system.WellNamed := by
  have hd := h.wellFormed
  refine ⟨?_, ?_, ?_, h.encodes.transitionNames_nodup⟩
  · rw [h.encodes.counters_eq]
    exact counterName_valid hd
  · rw [CounterSystem.counterNames, h.encodes.counters_eq]
    exact counterNames_nodup hd
  · intro t ht u hu
    obtain ⟨v, hv, hname⟩ := List.mem_map.mp (h.mem_counters_of_update ht hu)
    rw [← hname]
    exact counterName_valid hd v hv

end Encoding.Abstracts

/-! ## Where systems come from -/

/-- The system was read from a text, or it encodes a composed description. -/
inductive CounterSystem.Obtained : CounterSystem → Prop
  | read {text : Text} {s : CounterSystem} (h : CounterSystem.read text = .ok s) : Obtained s
  | encoded {text : Text} {d : Description} {opts : CompositionOptions}
      {options : EncodingOptions} {enc : Encoding} (hread : Description.read text = .ok d)
      (hencode : encode d (compose d opts).transitions options = .ok enc) :
      Obtained enc.system

theorem CounterSystem.Obtained.wellNamed {s : CounterSystem} (h : s.Obtained) :
    s.WellNamed := by
  cases h with
  | read h => exact (read_printable h).toWellNamed
  | encoded hread hencode => exact (Encoding.Abstracts.of_encode hread hencode).wellNamed

/-- Two cars move between two floors. -/
def liftText : Text :=
  Text.cat
    ["gal lift \x7b int low = 2; int high = 0; ",
      "transition up [low >= 1] \x7b low -= 1; high += 1; \x7d ",
      "transition down [high >= 1] \x7b high -= 1; low += 1; \x7d \x7d"]

theorem exists_read_liftText : ∃ sys, CounterSystem.read liftText = .ok sys := by
  obtain ⟨sys, hread, -⟩ := Description.exists_eq_ok_of_any
    (x := CounterSystem.read liftText) (p := fun _ => true) (by decide +kernel)
  exact ⟨sys, hread⟩

/-! ## Keys -/

theorem Marking.same_equivalence : Equivalence fun a b : Marking => a.same b = true where
  refl a := same_iff_agree.mpr (Agree.refl a)
  symm h := same_iff_agree.mpr (same_iff_agree.mp h).symm
  trans h h' := same_iff_agree.mpr ((same_iff_agree.mp h).trans (same_iff_agree.mp h'))

/-- Markings of identifiers have one key exactly when they are the same, that is when
they give every counter the same value, and being the same is an equivalence.  The
markings of a system that was read or encodes a description are of this kind, and
firing one of its transitions does not leave the kind. -/
theorem Marking.key_identifies_configuration :
    (∀ a b : Marking, (∀ n ∈ a.domain, Name.isValid n = true) →
      (∀ n ∈ b.domain, Name.isValid n = true) →
        (a.key = b.key ↔ a.same b = true) ∧ (a.same b = true ↔ ∀ n, a.get n = b.get n)) ∧
      Equivalence (fun a b : Marking => a.same b = true) ∧
      ∀ s : CounterSystem, s.Obtained →
        (∀ m, s.Reachable m → ∀ n ∈ m.domain, Name.isValid n = true) ∧
          ∀ t ∈ s.transitions, ∀ m next, (∀ n ∈ m.domain, Name.isValid n = true) →
            t.fire? m = some next → ∀ n ∈ next.domain, Name.isValid n = true := by
  refine ⟨?_, same_equivalence, ?_⟩
  · intro a b ha hb
    exact ⟨(key_eq_iff_agree ha hb).trans same_iff_agree.symm, same_iff_agree⟩
  · intro s hs
    have hnamed := hs.wellNamed
    refine ⟨fun m hm => hnamed.domain_valid hm, ?_⟩
    intro t ht m next hm hfire
    exact Transition.domain_valid_of_fire (hnamed.update_valid t ht) hm hfire

/-- One configuration of the lift, with and without its zero, and another one. -/
theorem Marking.key_identifies_configuration_lift :
    (ofList [("high", 0), ("low", 2)]).key = (ofList [("low", 2)]).key ∧
      (ofList [("low", 2)]).key ≠ (ofList [("low", -2)]).key ∧
      ∃ s, CounterSystem.read liftText = .ok s ∧
        ∀ n ∈ s.initial.domain, Name.isValid n = true := by
  obtain ⟨hkeys, -, hsystems⟩ := key_identifies_configuration
  obtain ⟨hwith, -⟩ := hkeys (ofList [("high", 0), ("low", 2)]) (ofList [("low", 2)])
    (by decide) (by decide)
  obtain ⟨hother, -⟩ := hkeys (ofList [("low", 2)]) (ofList [("low", -2)]) (by decide) (by decide)
  obtain ⟨s, hread⟩ := exists_read_liftText
  refine ⟨hwith.mpr (by decide), ?_, s, hread, (hsystems s (.read hread)).1 _ .initial⟩
  exact fun hequal => absurd (hother.mp hequal) (by decide)

end Population
