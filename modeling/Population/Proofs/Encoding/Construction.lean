import Population.Encoding.Basic
import Population.Proofs.CounterSystem.Drafting
import Population.Proofs.Description.WellFormed
import Population.Proofs.Marking.Basic
import Population.Proofs.Text.Decimal

/-!
# Every accepted description has an encoding

The names of an accepted description are distinct identifiers, and so are the
generated names of its transitions.  Encoding therefore succeeds for every bound
that is not negative, with exactly the counters and transitions that were meant.
-/

namespace Population

namespace Encoding

/-! ## Generated names -/

theorem globalName_injective : Function.Injective globalName := by
  intro a b h
  exact Text.ofNat_injective (List.append_cancel_left h)

theorem globalName_valid (n : Nat) : Name.isValid (globalName n) = true := by
  have hdigits : (Text.ofNat n).all Name.isPart = true := by
    rw [List.all_eq_true]
    intro b hb
    have hdigit := Text.isDigit_of_mem_ofNat hb
    simp only [Text.isDigit] at hdigit
    simp [Name.isPart, hdigit]
  have hstart : Name.isStart (Text.byte 't') = true := by decide
  exact Bool.and_eq_true_iff.mpr ⟨hstart, hdigits⟩

theorem globalName_ne {n : Nat} {name : Text} (h : name.head? ≠ some (Text.byte 't')) :
    globalName n ≠ name := by
  rintro rfl
  exact h rfl

theorem map_fst_nameGlobals (globals : List GlobalTransition) :
    (nameGlobals globals).map (·.1) = (List.range' 1 globals.length).map globalName := by
  rw [nameGlobals, List.map_map, List.range'_eq_map_range]
  apply List.ext_getElem
  · simp
  · intro i _ _
    simp

theorem mem_of_mem_nameGlobals
    {globals : List GlobalTransition} {name : Text} {g : GlobalTransition}
    (h : (name, g) ∈ nameGlobals globals) : g ∈ globals := by
  obtain ⟨⟨g', n⟩, hmem, heq⟩ := List.mem_map.mp h
  cases heq
  exact List.fst_mem_of_mem_zipIdx hmem

theorem exists_mem_nameGlobals
    {globals : List GlobalTransition} {g : GlobalTransition} (h : g ∈ globals) :
    ∃ name, (name, g) ∈ nameGlobals globals := by
  rw [← List.zipIdx_map_fst 1 globals] at h
  obtain ⟨⟨g', n⟩, hmem, rfl⟩ := List.mem_map.mp h
  exact ⟨globalName n, List.mem_map.mpr ⟨(g', n), hmem, rfl⟩⟩

/-- The transitions of an encoding. -/
theorem mem_transitions_iff
    {d : Description} {bound : Int64} {named : List (Text × GlobalTransition)}
    {t : Transition} :
    t ∈ transitions d bound named ↔
      t = spawn d bound ∨ t = leave d ∨
        ∃ name g, (name, g) ∈ named ∧ t = guarded name g := by
  simp only [transitions, List.mem_cons, List.mem_map, Prod.exists]
  constructor
  · rintro (rfl | rfl | ⟨name, g, hmem, rfl⟩)
    · exact .inl rfl
    · exact .inr (.inl rfl)
    · exact .inr (.inr ⟨name, g, hmem, rfl⟩)
  · rintro (rfl | rfl | ⟨name, g, hmem, rfl⟩)
    · exact .inl rfl
    · exact .inr (.inl rfl)
    · exact .inr (.inr ⟨name, g, hmem, rfl⟩)

theorem map_name_transitions
    (d : Description) (bound : Int64) (globals : List GlobalTransition) :
    (transitions d bound (nameGlobals globals)).map (·.name) =
      ("spawn" : Text) :: ("leave" : Text) :: (List.range' 1 globals.length).map globalName := by
  rw [← map_fst_nameGlobals]
  simp [transitions, spawn, leave, guarded, Function.comp_def]

theorem transitionNames_nodup
    (d : Description) (bound : Int64) (globals : List GlobalTransition) :
    ((transitions d bound (nameGlobals globals)).map (·.name)).Nodup := by
  rw [map_name_transitions]
  have hglobal : ∀ {name : Text}, name.head? ≠ some (Text.byte 't') →
      name ∉ (List.range' 1 globals.length).map globalName := by
    intro name hname hmem
    obtain ⟨n, -, hn⟩ := List.mem_map.mp hmem
    exact globalName_ne hname hn
  refine List.nodup_cons.mpr ⟨?_, List.nodup_cons.mpr ⟨hglobal (by decide), ?_⟩⟩
  · intro hmem
    rcases List.mem_cons.mp hmem with heq | hmem
    · exact absurd heq (by decide)
    · exact hglobal (by decide) hmem
  · exact List.Nodup.map globalName_injective List.nodup_range'

theorem transitionName_valid
    {d : Description} {bound : Int64} {globals : List GlobalTransition} {t : Transition}
    (ht : t ∈ transitions d bound (nameGlobals globals)) : Name.isValid t.name = true := by
  have hname : t.name ∈ (transitions d bound (nameGlobals globals)).map (·.name) :=
    List.mem_map.mpr ⟨t, ht, rfl⟩
  rw [map_name_transitions, List.mem_cons, List.mem_cons, List.mem_map] at hname
  rcases hname with hspawn | hleave | ⟨n, -, hn⟩
  · rw [hspawn]
    decide
  · rw [hleave]
    decide
  · rw [← hn]
    exact globalName_valid n

/-! ## Counters -/

theorem map_name_counters (d : Description) :
    (counters d).map (·.name) =
      d.agent.stateNames ++ d.environment.states ++ [reservedName] := by
  simp [counters, Agent.stateNames, Function.comp_def]

theorem counterNames_nodup {d : Description} (hd : d.WellFormed) :
    ((counters d).map (·.name)).Nodup := by
  rw [map_name_counters, List.nodup_append', List.nodup_append']
  refine ⟨⟨hd.agentStates_nodup, hd.environmentStates_nodup, ?_⟩, by simp, ?_⟩
  · intro s hagent henvironment
    exact hd.disjoint s henvironment hagent
  · intro s hs hreserved
    rw [List.mem_singleton.mp hreserved, List.mem_append] at hs
    exact hs.elim hd.reserved_not_agent hd.reserved_not_environment

theorem counterName_valid {d : Description} (hd : d.WellFormed) :
    ∀ v ∈ counters d, Name.isValid v.name = true := by
  intro v hv
  have hname : v.name ∈ (counters d).map (·.name) := List.mem_map.mpr ⟨v, hv, rfl⟩
  rw [map_name_counters, List.mem_append, List.mem_append, List.mem_singleton] at hname
  rcases hname with (hagent | henvironment) | hreserved
  · exact hd.agentName_valid _ hagent
  · exact hd.environmentName_valid _ henvironment
  · rw [hreserved]
    decide

/-! ## Encoding succeeds -/

/-- Distinct valid names make a system of all counters and transitions. -/
theorem exists_build
    {cs : List Counter} {ts : List Transition} (name : Text)
    (hcounters : ∀ v ∈ cs, Name.isValid v.name = true)
    (hcounters_nodup : (cs.map (·.name)).Nodup)
    (htransitions : ∀ t ∈ ts, Name.isValid t.name = true)
    (htransitions_nodup : (ts.map (·.name)).Nodup) :
    ∃ draft, build name cs ts = .ok draft ∧ draft.system = ⟨name, cs, ts⟩ := by
  obtain ⟨d₁, hdeclare, ⟨t₁, htabled⟩, hsystem⟩ :=
    (Draft.tabled_new name).declareAll hcounters
      (by simpa [Draft.new, CounterSystem.counterNames] using hcounters_nodup)
  have hnone : d₁.system.transitions = [] := by
    rw [hsystem]
    rfl
  obtain ⟨d₂, hadd, -, hsystem₂⟩ :=
    htabled.addAll htransitions (by simpa [hnone] using htransitions_nodup)
  refine ⟨d₂, ?_, ?_⟩
  · rw [build, hdeclare]
    exact hadd
  · rw [hsystem₂, hsystem]
    simp [Draft.new]

/-- A system that is built consists of all counters and transitions. -/
theorem system_of_build
    {cs : List Counter} {ts : List Transition} {name : Text} {draft : Draft}
    (hbuild : build name cs ts = .ok draft) : draft.system = ⟨name, cs, ts⟩ := by
  obtain ⟨d₁, hdeclare, hadd⟩ := Description.exists_of_bind_eq_ok hbuild
  obtain ⟨⟨t₁, htabled⟩, hsystem⟩ := (Draft.tabled_new name).of_declareAll hdeclare
  obtain ⟨-, hsystem'⟩ := htabled.of_addAll hadd
  rw [hsystem', hsystem]
  simp [Draft.new]

/-- The encoding consists of what the description and its global transitions
call for. -/
structure Encodes
    (enc : Encoding) (d : Description) (globals : List GlobalTransition) (bound : Int64) :
    Prop where
  counters_eq : enc.system.counters = counters d
  transitions_eq : enc.system.transitions = transitions d bound (nameGlobals globals)
  hazards_eq : enc.hazards = hazardsOf d (nameGlobals globals)
  globals_eq : enc.globals = nameGlobals globals

theorem Encodes.transitionNames_nodup
    {enc : Encoding} {d : Description} {globals : List GlobalTransition} {bound : Int64}
    (h : enc.Encodes d globals bound) : (enc.system.transitions.map (·.name)).Nodup := by
  rw [h.transitions_eq]
  exact Encoding.transitionNames_nodup d bound globals

/-- Whatever is encoded, the encoding consists of what was called for. -/
theorem encodes_of_encode
    {d : Description} {globals : List GlobalTransition} {opts : EncodingOptions}
    {enc : Encoding} (h : encode d globals opts = .ok enc) :
    enc.Encodes d globals opts.bound := by
  unfold encode at h
  split at h
  · cases h
  · dsimp only at h
    split at h
    · cases h
    next draft hbuild =>
      cases h
      have hsystem := system_of_build hbuild
      exact ⟨by rw [hsystem], by rw [hsystem], rfl, rfl⟩

theorem exists_encode
    {d : Description} (hd : d.WellFormed) (globals : List GlobalTransition)
    {bound : Int64} (hbound : 0 ≤ bound) (name : Text) :
    ∃ enc, encode d globals ⟨bound, name⟩ = .ok enc ∧ enc.Encodes d globals bound ∧
      enc.system.name = if name.isEmpty then defaultSystemName else name := by
  obtain ⟨draft, hbuild, hsystem⟩ :=
    exists_build (if name.isEmpty then defaultSystemName else name)
      (counterName_valid hd) (counterNames_nodup hd)
      (fun t (ht : t ∈ transitions d bound (nameGlobals globals)) => transitionName_valid ht)
      (transitionNames_nodup d bound globals)
  refine ⟨⟨draft.system, hazardsOf d (nameGlobals globals), nameGlobals globals⟩, ?_, ?_⟩
  · have hnonneg : ¬bound < 0 := Int64.not_lt.mpr hbound
    simp only [encode, if_neg hnonneg, hbuild]
  · exact ⟨⟨by rw [hsystem], by rw [hsystem], rfl, rfl⟩, by rw [hsystem]⟩

end Encoding

end Population
