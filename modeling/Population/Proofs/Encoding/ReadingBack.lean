import Population.Proofs.CounterSystem.ReadingBack

/-!
# Encodings are read back

An accepted description can be encoded under every bound that is not negative,
and the text of the resulting system is one that the reader of counter systems
accepts: every name in it is an identifier that was declared, no name is used
twice, and no comparison uses an operator that does not exist.
-/

namespace Population

open Encoding

variable {d : Description} {opts : CompositionOptions} {bound : Int64} {enc : Encoding}

/-- Only the environment's initial state starts with a token. -/
theorem Encoding.filter_counters (hd : d.WellFormed) :
    (counters d).filter (·.initial ≠ 0) = [⟨d.environment.initial, 1⟩] := by
  have hmem : (⟨d.environment.initial, 1⟩ : Counter) ∈ counters d := by
    simp [counters, hd.environmentInitial_mem]
  have hone : ∀ v ∈ counters d,
      decide (v.initial ≠ 0) = decide (v = ⟨d.environment.initial, 1⟩) := by
    intro v hv
    have hinitial := initial_eq_of_mem_counters hd v hv
    rw [decide_eq_decide]
    constructor
    · intro hne
      have hname : v.name = d.environment.initial := by
        by_contra hother
        exact hne (by rw [hinitial, if_neg hother])
      rw [if_pos hname] at hinitial
      rw [← hname, ← hinitial]
    · rintro rfl
      exact (by decide : (1 : Int64) ≠ 0)
  have hcount : (counters d).count ⟨d.environment.initial, 1⟩ = 1 :=
    List.count_eq_one_of_mem (List.Nodup.of_map _ (counterNames_nodup hd)) hmem
  rw [List.filter_congr hone, List.filter_eq, hcount]
  rfl

namespace Encoding.Abstracts

theorem length_transitions (h : enc.Abstracts d opts bound) :
    enc.system.transitions.length = 2 + (compose d opts).transitions.length := by
  rw [h.encodes.transitions_eq]
  simp only [transitions, nameGlobals, List.length_cons, List.length_map, List.length_zipIdx]
  omega

theorem printable
    (h : enc.Abstracts d opts bound) (hname : CounterSystem.isWord enc.system.name = true) :
    enc.system.Printable where
  toWellNamed := h.wellNamed
  name_word := hname
  transition_valid t ht := by
    rw [h.encodes.transitions_eq] at ht
    exact transitionName_valid ht
  guard_plain t ht c hc := by
    obtain ⟨hdeclared, hop⟩ := h.mem_counters_of_guard ht hc
    obtain ⟨v, hv, hvname⟩ := List.mem_map.mp hdeclared
    exact ⟨hvname ▸ counterName_valid h.wellFormed v hv, hop⟩

end Encoding.Abstracts

/-- Every accepted description has an encoding, whatever the composition, the
bound and the name.  It has two transitions besides the global ones, all of
distinct names; it mentions declared counters only; the environment alone has a
token at the start; and its text is read back. -/
theorem exists_encode_read_back
    {text : Text} (hread : Description.read text = .ok d) (opts : CompositionOptions)
    (hbound : 0 ≤ bound) {name : Text}
    (hname : name = [] ∨ CounterSystem.isWord name = true) :
    ∃ enc, encode d (compose d opts).transitions ⟨bound, name⟩ = .ok enc ∧
      enc.system.transitions.length = 2 + (compose d opts).transitions.length ∧
      (enc.system.transitions.map (·.name)).Nodup ∧
      (∀ t ∈ enc.system.transitions,
        (∀ c ∈ t.guard, c.name ∈ enc.system.counterNames) ∧
          ∀ u ∈ t.updates, u.name ∈ enc.system.counterNames) ∧
      enc.system.counters.filter (·.initial ≠ 0) = [⟨d.environment.initial, 1⟩] ∧
      CounterSystem.read enc.system.text = .ok enc.system := by
  have hd := Description.read_wellFormed hread
  obtain ⟨enc, hencode, henc, hsystem⟩ :=
    exists_encode hd (compose d opts).transitions hbound name
  have h : enc.Abstracts d opts bound := ⟨hd, Int64.le_iff_toInt_le.mp hbound, henc⟩
  have hword : CounterSystem.isWord enc.system.name = true := by
    rw [hsystem]
    rcases hname with rfl | hname
    · decide
    · split
      · decide
      · exact hname
  have hnames : enc.system.counterNames = (counters d).map (·.name) := by
    rw [CounterSystem.counterNames, henc.counters_eq]
  refine ⟨enc, hencode, h.length_transitions, henc.transitionNames_nodup, ?_, ?_,
    CounterSystem.read_text (h.printable hword)⟩
  · intro t ht
    rw [hnames]
    exact ⟨fun c hc => (h.mem_counters_of_guard ht hc).1,
      fun u hu => h.mem_counters_of_update ht hu⟩
  · rw [henc.counters_eq]
    exact filter_counters hd

theorem exists_encode_read_back_relay :
    ∃ d, Description.read (relayText "done") = .ok d ∧ (0 : Int64) ≤ 2 ∧
      CounterSystem.isWord [0xE9] = true ∧
      ∃ enc, encode d (compose d ⟨2, true⟩).transitions ⟨2, [0xE9]⟩ = .ok enc ∧
        enc.system.transitions.length = 2 + (compose d ⟨2, true⟩).transitions.length ∧
        (enc.system.transitions.map (·.name)).Nodup ∧
        (∀ t ∈ enc.system.transitions,
          (∀ c ∈ t.guard, c.name ∈ enc.system.counterNames) ∧
            ∀ u ∈ t.updates, u.name ∈ enc.system.counterNames) ∧
        enc.system.counters.filter (·.initial ≠ 0) = [⟨d.environment.initial, 1⟩] ∧
        CounterSystem.read enc.system.text = .ok enc.system := by
  obtain ⟨d, hread, -⟩ := Description.exists_eq_ok_of_any
    (x := Description.read (relayText "done")) (p := fun _ => true) (by decide +kernel)
  exact ⟨d, hread, by decide, by decide,
    exists_encode_read_back hread ⟨2, true⟩ (by decide) (.inr (by decide))⟩

end Population
