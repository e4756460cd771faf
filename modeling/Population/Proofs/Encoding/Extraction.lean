import Population.Proofs.Encoding.Deduplication

/-!
# Hazards are extracted exactly

Global transitions are filed one after the other, each under the first hazard
whose before side has the same key.  The result is a grouping: one hazard for
each before side of a transition that populates a forbidden state, in the order
of the first such transition, and with all such transitions in their order.  For
an accepted description keys agree exactly when before sides are equal as
multisets, so nothing is merged or split that should not be.
-/

namespace Population

/-! ## First members of classes -/

/-- The first element of each key stands first among the elements of its key. -/
theorem head?_filter_of_mem_firstsBy
    {α κ : Type} [DecidableEq κ] {key : α → κ} {seen : List κ} {xs : List α} {r : α}
    (h : r ∈ firstsBy key seen xs) :
    (xs.filter fun x => decide (key x = key r)).head? = some r := by
  induction xs generalizing seen with
  | nil => simp [firstsBy] at h
  | cons a rest ih =>
      have hfresh : key r ∉ seen := firstsBy_fresh r h
      rw [firstsBy] at h
      split at h
      next hseen =>
        have hne : key a ≠ key r := fun heq => hfresh (heq ▸ List.contains_iff_mem.mp hseen)
        rw [List.filter_cons_of_neg (by simpa using hne)]
        exact ih h
      next =>
        rcases List.mem_cons.mp h with rfl | hrest
        · rw [List.filter_cons_of_pos (by simp), List.head?_cons]
        · have hne : key a ≠ key r :=
            fun heq => firstsBy_fresh r hrest (heq ▸ List.mem_cons_self)
          rw [List.filter_cons_of_neg (by simpa using hne)]
          exact ih hrest

namespace Encoding

/-! ## Filing is grouping -/

/-- The key under which a named transition is filed. -/
def sideKey (e : Text × GlobalTransition) : Text :=
  e.2.needs.marking.key

/-- The named transitions that populate a forbidden state. -/
def flagged (d : Description) (named : List (Text × GlobalTransition)) :
    List (Text × GlobalTransition) :=
  named.filter fun e => populatesForbidden d e.2

/-- The hazard of those of the named transitions that have the key of `e`. -/
def hazardFor (xs : List (Text × GlobalTransition)) (e : Text × GlobalTransition) : Hazard where
  weights := e.2.needs
  transitions := (xs.filter fun f => decide (sideKey f = sideKey e)).map (·.1)

/-- One hazard for each key, in the order of the first transition that has it. -/
def grouped (xs : List (Text × GlobalTransition)) : List Hazard :=
  (firstsBy sideKey [] xs).map (hazardFor xs)

section Grouping

variable {xs reps : List (Text × GlobalTransition)} {e r : Text × GlobalTransition}

theorem hazardFor_append_of_ne (h : sideKey e ≠ sideKey r) :
    hazardFor (xs ++ [e]) r = hazardFor xs r := by
  simp [hazardFor, List.filter_append, h]

theorem hazardFor_append_of_eq (h : sideKey e = sideKey r) :
    hazardFor (xs ++ [e]) r =
      { hazardFor xs r with transitions := (hazardFor xs r).transitions ++ [e.1] } := by
  simp [hazardFor, List.filter_append, h]

theorem addHazard_cons (hs : List Hazard) :
    addHazard e.1 e.2.needs (hazardFor xs r :: hs) =
      if sideKey r = sideKey e then
        { hazardFor xs r with transitions := (hazardFor xs r).transitions ++ [e.1] } :: hs
      else hazardFor xs r :: addHazard e.1 e.2.needs hs :=
  rfl

/-- One more transition joins the hazard of its key. -/
theorem addHazard_of_mem
    (hdistinct : reps.Pairwise fun a b => sideKey a ≠ sideKey b)
    (he : sideKey e ∈ reps.map sideKey) :
    addHazard e.1 e.2.needs (reps.map (hazardFor xs)) = reps.map (hazardFor (xs ++ [e])) := by
  induction reps with
  | nil => simp at he
  | cons r rest ih =>
      obtain ⟨hfirst, hrest⟩ := List.pairwise_cons.mp hdistinct
      rw [List.map_cons, addHazard_cons, List.map_cons]
      by_cases hkey : sideKey r = sideKey e
      · have hothers : rest.map (hazardFor (xs ++ [e])) = rest.map (hazardFor xs) :=
          List.map_congr_left fun b hb => hazardFor_append_of_ne (hkey ▸ hfirst b hb)
        rw [if_pos hkey, hothers, hazardFor_append_of_eq hkey.symm]
      · have hlater : sideKey e ∈ rest.map sideKey := by
          rw [List.map_cons, List.mem_cons] at he
          exact he.resolve_left fun heq => hkey heq.symm
        rw [if_neg hkey, ih hrest hlater, hazardFor_append_of_ne (Ne.symm hkey)]

/-- A transition with a new key opens a hazard behind the others. -/
theorem addHazard_of_not_mem (he : sideKey e ∉ reps.map sideKey) :
    addHazard e.1 e.2.needs (reps.map (hazardFor xs)) =
      reps.map (hazardFor (xs ++ [e])) ++ [⟨e.2.needs, [e.1]⟩] := by
  induction reps with
  | nil => rfl
  | cons r rest ih =>
      rw [List.map_cons, List.mem_cons, not_or] at he
      rw [List.map_cons, addHazard_cons, if_neg (fun hkey => he.1 hkey.symm), ih he.2,
        List.map_cons, hazardFor_append_of_ne he.1, List.cons_append]

theorem mem_map_firstsBy_iff {k : Text} :
    k ∈ (firstsBy sideKey [] xs).map sideKey ↔ k ∈ xs.map sideKey := by
  rw [List.mem_map, List.mem_map]
  constructor
  · rintro ⟨a, ha, rfl⟩
    exact ⟨a, firstsBy_subset ha, rfl⟩
  · rintro ⟨a, ha, rfl⟩
    exact exists_mem_firstsBy ha List.not_mem_nil

theorem addHazard_grouped (xs : List (Text × GlobalTransition)) (e : Text × GlobalTransition) :
    addHazard e.1 e.2.needs (grouped xs) = grouped (xs ++ [e]) := by
  have hlast : firstsBy sideKey (xs.map sideKey ++ []) [e] =
      if sideKey e ∈ xs.map sideKey then [] else [e] := by
    simp only [firstsBy, List.append_nil, List.contains_iff_mem]
  rw [grouped, grouped, firstsBy_append, hlast]
  by_cases he : sideKey e ∈ xs.map sideKey
  · rw [if_pos he, List.append_nil]
    exact addHazard_of_mem (firstsBy_pairwise [] xs) (mem_map_firstsBy_iff.mpr he)
  · have hnone : (xs.filter fun f => decide (sideKey f = sideKey e)) = [] := by
      rw [List.filter_eq_nil_iff]
      intro f hf hkey
      exact he (List.mem_map.mpr ⟨f, hf, of_decide_eq_true hkey⟩)
    have hnew : hazardFor (xs ++ [e]) e = ⟨e.2.needs, [e.1]⟩ := by
      simp [hazardFor, List.filter_append, hnone]
    rw [if_neg he, List.map_append, List.map_singleton, hnew]
    exact addHazard_of_not_mem fun hmem => he (mem_map_firstsBy_iff.mp hmem)

theorem foldl_file_grouped
    (d : Description) (xs named : List (Text × GlobalTransition)) :
    named.foldl (file d) (grouped xs) = grouped (xs ++ flagged d named) := by
  induction named generalizing xs with
  | nil => simp [flagged]
  | cons e rest ih =>
      rw [List.foldl_cons, file]
      by_cases he : populatesForbidden d e.2 = true
      · rw [if_pos he, addHazard_grouped, ih, flagged, flagged,
          List.filter_cons_of_pos (by exact he), List.append_assoc, List.singleton_append]
      · rw [if_neg he, ih, flagged, flagged, List.filter_cons_of_neg (by exact he)]

/-- The hazards are the groups of the transitions that populate a forbidden state. -/
theorem hazardsOf_eq_grouped (d : Description) (named : List (Text × GlobalTransition)) :
    hazardsOf d named = grouped (flagged d named) := by
  rw [hazardsOf_eq]
  exact foldl_file_grouped d [] named

theorem mem_grouped_iff {h : Hazard} :
    h ∈ grouped xs ↔ ∃ r ∈ firstsBy sideKey [] xs, h = hazardFor xs r := by
  rw [grouped, List.mem_map]
  exact exists_congr fun r => and_congr_right fun _ => eq_comm

theorem mem_transitions_hazardFor {name : Text} :
    name ∈ (hazardFor xs r).transitions ↔ ∃ g, (name, g) ∈ xs ∧ sideKey (name, g) = sideKey r := by
  simp [hazardFor]

/-- A transition is listed by a hazard of its key, and by no other. -/
theorem exists_mem_grouped {name : Text} {g : GlobalTransition} (hmem : (name, g) ∈ xs) :
    ∃ r ∈ firstsBy sideKey [] xs, sideKey r = sideKey (name, g) ∧
      name ∈ (hazardFor xs r).transitions := by
  obtain ⟨r, hr, hkey⟩ :=
    exists_mem_firstsBy hmem (List.not_mem_nil (a := sideKey (name, g)))
  exact ⟨r, hr, hkey, mem_transitions_hazardFor.mpr ⟨g, hmem, hkey.symm⟩⟩

/-- No name is listed twice, be it by one hazard or by two. -/
theorem nodup_transitions_grouped (hnames : (xs.map (·.1)).Nodup) :
    ((grouped xs).flatMap (·.transitions)).Nodup := by
  rw [grouped, List.flatMap_map, List.nodup_flatMap]
  constructor
  · intro r _
    exact hnames.sublist (List.filter_sublist.map _)
  · refine (firstsBy_pairwise [] xs).imp ?_
    intro a b hne name hmem hmem'
    obtain ⟨g, hg, hkey⟩ := mem_transitions_hazardFor.mp hmem
    obtain ⟨g', hg', hkey'⟩ := mem_transitions_hazardFor.mp hmem'
    have heq : (name, g) = (name, g') := List.inj_on_of_nodup_map hnames hg hg' rfl
    exact hne (hkey.symm.trans (heq ▸ hkey'))

end Grouping

/-! ## Numbers of transitions -/

/-- The name of a transition with a smaller number. -/
def NumberedBefore (a b : Text) : Prop :=
  ∀ i j, a = globalName i → b = globalName j → i < j

section Names

variable {globals : List GlobalTransition}

theorem mem_nameGlobals_iff {name : Text} {g : GlobalTransition} :
    (name, g) ∈ nameGlobals globals ↔
      ∃ i, globals[i]? = some g ∧ name = globalName (i + 1) := by
  simp only [nameGlobals, List.mem_map, Prod.exists, Prod.mk.injEq,
    List.mem_zipIdx_iff_le_and_getElem?_sub]
  constructor
  · rintro ⟨g', n, ⟨hn, hget⟩, rfl, rfl⟩
    exact ⟨n - 1, hget, by rw [Nat.sub_add_cancel hn]⟩
  · rintro ⟨i, hget, rfl⟩
    exact ⟨g, i + 1, ⟨by omega, by simpa using hget⟩, rfl, rfl⟩

theorem mem_nameGlobals_globalName {i : Nat} {g : GlobalTransition} :
    (globalName (i + 1), g) ∈ nameGlobals globals ↔ globals[i]? = some g := by
  rw [mem_nameGlobals_iff]
  constructor
  · rintro ⟨j, hget, hname⟩
    have hij : i + 1 = j + 1 := globalName_injective hname
    rwa [Nat.succ.inj hij]
  · intro hget
    exact ⟨i, hget, rfl⟩

theorem names_numbered (globals : List GlobalTransition) :
    ((nameGlobals globals).map (·.1)).Pairwise NumberedBefore := by
  rw [map_fst_nameGlobals, List.pairwise_map]
  refine (List.pairwise_lt_range' (s := 1) (n := globals.length)).imp ?_
  intro i j hlt i' j' hi hj
  rwa [← globalName_injective hi, ← globalName_injective hj]

theorem nodup_names_flagged (d : Description) (globals : List GlobalTransition) :
    ((flagged d (nameGlobals globals)).map (·.1)).Nodup := by
  have hnodup : ((nameGlobals globals).map (·.1)).Nodup := by
    rw [map_fst_nameGlobals]
    exact List.Nodup.map globalName_injective List.nodup_range'
  exact hnodup.sublist (List.filter_sublist.map _)

theorem flagged_numbered (d : Description) (globals : List GlobalTransition) :
    ((flagged d (nameGlobals globals)).map (·.1)).Pairwise NumberedBefore :=
  (names_numbered globals).sublist (List.filter_sublist.map _)

end Names

end Encoding

/-! ## Totals -/

namespace Weights

theorem total_cons (s : Text) (n : Int64) (rest : Weights) :
    total ((s, n) :: rest) = n + total rest := by
  simp only [total, List.map_cons, List.foldl_cons]
  rw [Int64.add_comm 0 n, List.foldl_assoc]

theorem total_add (s : Text) (w : Weights) : (w.add s).total = w.total + 1 := by
  induction w with
  | nil => rfl
  | cons e rest ih =>
      obtain ⟨k, n⟩ := e
      rw [add]
      split
      · rw [total_cons, total_cons]
        ac_rfl
      · rw [total_cons, total_cons, ih, Int64.add_assoc]

/-- The total is the number of tokens, modulo 2^64. -/
theorem total_of (env : Text) (agents : List Text) :
    (of env agents).total = Int64.ofNat (env :: agents).length := by
  have hfold : ∀ w : Weights, (agents.foldl (fun w s => w.add s) w).total =
      w.total + Int64.ofNat agents.length := by
    induction agents with
    | nil => simp
    | cons s rest ih =>
        intro w
        have hone : Int64.ofNat 1 = 1 := rfl
        rw [List.foldl_cons, ih, total_add, List.length_cons, Int64.ofNat_add, hone]
        ac_rfl
  have hone : total [(env, 1)] = Int64.ofNat 1 := rfl
  rw [of, hfold, hone, List.length_cons, ← Int64.ofNat_add, Nat.add_comm]

end Weights

/-! ## Exactness -/

/-- Keys tell before sides apart as multisets. -/
theorem sideKey_eq_iff
    {d : Description} {limit : Int} (hd : d.WellFormed) {e f : Text × GlobalTransition}
    (he : Arises d limit e.2) (hf : Arises d limit f.2) :
    Encoding.sideKey e = Encoding.sideKey f ↔ e.2.before.Perm f.2.before := by
  constructor
  · intro hkey
    rw [List.perm_iff_count]
    intro s
    have hvalue : e.2.needs.marking.value s = f.2.needs.marking.value s := by
      rw [Marking.value, Marking.value, Marking.get_eq_of_key_eq (Encoding.needs_valid hd he)
        (Encoding.needs_valid hd hf) hkey]
    rw [Encoding.value_needs (he.slim hd), Encoding.value_needs (hf.slim hd)] at hvalue
    exact_mod_cast hvalue
  · intro hperm
    rw [Encoding.sideKey, Encoding.sideKey,
      needs_marking_eq (he.slim hd) (hf.slim hd) fun s => hperm.count_eq s]

/-- Some participant ends in a state of weight zero. -/
def Description.Endangers (d : Description) (g : GlobalTransition) : Prop :=
  ∃ st ∈ d.agent.states, st.weight = 0 ∧ st.name ∈ g.agentAfter

/-- The hazards file the transitions `t1`, `t2`, … that populate a forbidden
state by their before sides. -/
structure ExtractedExactly
    (d : Description) (globals : List GlobalTransition) (hs : List Hazard) : Prop where
  /-- A transition is filed exactly if it populates a forbidden state. -/
  filed_iff : ∀ i g, globals[i]? = some g →
    ((∃ h ∈ hs, Encoding.globalName (i + 1) ∈ h.transitions) ↔ d.Endangers g)
  /-- Nothing else is filed. -/
  known : ∀ h ∈ hs, ∀ name ∈ h.transitions,
    ∃ i g, globals[i]? = some g ∧ name = Encoding.globalName (i + 1)
  /-- Each is filed in one place and once. -/
  once : (hs.flatMap (·.transitions)).Nodup
  together_iff : ∀ i g j g', globals[i]? = some g → globals[j]? = some g' →
    d.Endangers g → d.Endangers g' →
    ((∃ h ∈ hs, Encoding.globalName (i + 1) ∈ h.transitions ∧
      Encoding.globalName (j + 1) ∈ h.transitions) ↔ g.before.Perm g'.before)
  /-- Hazards come in the order of their first transitions. -/
  first_order : hs.Pairwise fun h h' => ∃ name name', h.transitions.head? = some name ∧
    h'.transitions.head? = some name' ∧ Encoding.NumberedBefore name name'
  order : ∀ h ∈ hs, h.transitions ≠ [] ∧ h.transitions.Pairwise Encoding.NumberedBefore
  weights : ∀ h ∈ hs, ∀ i g, globals[i]? = some g →
    Encoding.globalName (i + 1) ∈ h.transitions →
    h.weights.states.Nodup ∧ (∀ s, (h.weights.amount s).toInt = g.before.count s) ∧
      h.weights.total.toInt = 1 + g.participants

section Extracted

open Encoding

variable {d : Description} {limit : Int} {globals : List GlobalTransition}

theorem mem_flagged_iff (hd : d.WellFormed) {i : Nat} {g : GlobalTransition}
    (hget : globals[i]? = some g) :
    (globalName (i + 1), g) ∈ flagged d (nameGlobals globals) ↔ d.Endangers g := by
  rw [flagged, List.mem_filter, mem_nameGlobals_globalName, populatesForbidden_iff hd]
  exact and_iff_right hget

theorem eq_of_mem_flagged {i : Nat} {g g' : GlobalTransition} (hget : globals[i]? = some g)
    (hmem : (globalName (i + 1), g') ∈ flagged d (nameGlobals globals)) : g' = g := by
  have hget' := mem_nameGlobals_globalName.mp (List.mem_filter.mp hmem).1
  rw [hget] at hget'
  exact (Option.some.inj hget').symm

theorem arises_of_mem_flagged
    (hglobals : ∀ g ∈ globals, Arises d limit g) {e : Text × GlobalTransition}
    (he : e ∈ flagged d (nameGlobals globals)) : Arises d limit e.2 :=
  hglobals e.2 (mem_of_mem_nameGlobals (List.mem_filter.mp he).1)

/-- A filed transition is in the class of the one that opened the hazard. -/
theorem perm_of_mem_hazardFor
    (hd : d.WellFormed) (hglobals : ∀ g ∈ globals, Arises d limit g)
    {r : Text × GlobalTransition} (hr : r ∈ flagged d (nameGlobals globals)) {i : Nat}
    {g : GlobalTransition} (hget : globals[i]? = some g)
    (hmem : globalName (i + 1) ∈ (hazardFor (flagged d (nameGlobals globals)) r).transitions) :
    r.2.before.Perm g.before := by
  obtain ⟨g', hflagged, hkey⟩ := mem_transitions_hazardFor.mp hmem
  obtain rfl := eq_of_mem_flagged hget hflagged
  exact (sideKey_eq_iff hd (arises_of_mem_flagged hglobals hr)
    (arises_of_mem_flagged hglobals hflagged)).mp hkey.symm

theorem weights_needs {g g' : GlobalTransition} (hg : g.Slim) (hperm : g.before.Perm g'.before) :
    g.needs.states.Nodup ∧ (∀ s, (g.needs.amount s).toInt = g'.before.count s) ∧
      g.needs.total.toInt = 1 + g'.participants := by
  refine ⟨Weights.states_of_nodup _ _, ?_, ?_⟩
  · intro s
    rw [GlobalTransition.toInt_needs (hg.count_before_lt s), hperm.count_eq]
  · have htotal : g.needs.total = Int64.ofNat g.before.length := Weights.total_of _ _
    rw [htotal, Int64.toInt_ofNat_of_lt hg.before_lt, hperm.length_eq, GlobalTransition.before,
      List.length_cons, GlobalTransition.participants]
    omega

/-- Hazards are extracted exactly from transitions that arise by composition. -/
theorem extractedExactly_grouped
    (hd : d.WellFormed) (hglobals : ∀ g ∈ globals, Arises d limit g) :
    ExtractedExactly d globals (grouped (flagged d (nameGlobals globals))) where
  filed_iff i g hget := by
    constructor
    · rintro ⟨h, hh, hname⟩
      obtain ⟨r, -, rfl⟩ := mem_grouped_iff.mp hh
      obtain ⟨g', hmem, -⟩ := mem_transitions_hazardFor.mp hname
      obtain rfl := eq_of_mem_flagged hget hmem
      exact (mem_flagged_iff hd hget).mp hmem
    · intro hendangers
      obtain ⟨r, hr, -, hname⟩ := exists_mem_grouped ((mem_flagged_iff hd hget).mpr hendangers)
      exact ⟨_, mem_grouped_iff.mpr ⟨r, hr, rfl⟩, hname⟩
  known h hh name hname := by
    obtain ⟨r, -, rfl⟩ := mem_grouped_iff.mp hh
    obtain ⟨g, hmem, -⟩ := mem_transitions_hazardFor.mp hname
    obtain ⟨i, hget, hname⟩ := mem_nameGlobals_iff.mp (List.mem_filter.mp hmem).1
    exact ⟨i, g, hget, hname⟩
  once := nodup_transitions_grouped (nodup_names_flagged d globals)
  together_iff i g j g' hget hget' hendangers hendangers' := by
    have hmem := (mem_flagged_iff hd hget).mpr hendangers
    have hmem' := (mem_flagged_iff hd hget').mpr hendangers'
    constructor
    · rintro ⟨h, hh, hname, hname'⟩
      obtain ⟨r, hr, rfl⟩ := mem_grouped_iff.mp hh
      have hflagged := firstsBy_subset hr
      exact (perm_of_mem_hazardFor hd hglobals hflagged hget hname).symm.trans
        (perm_of_mem_hazardFor hd hglobals hflagged hget' hname')
    · intro hperm
      have hkey := (sideKey_eq_iff hd (arises_of_mem_flagged hglobals hmem)
        (arises_of_mem_flagged hglobals hmem')).mpr hperm
      obtain ⟨r, hr, hrkey, hname⟩ := exists_mem_grouped hmem
      exact ⟨_, mem_grouped_iff.mpr ⟨r, hr, rfl⟩, hname,
        mem_transitions_hazardFor.mpr ⟨g', hmem', hkey.symm.trans hrkey.symm⟩⟩
  first_order := by
    rw [grouped, List.pairwise_map]
    have hnumbered := List.pairwise_map.mp (flagged_numbered d globals)
    refine (hnumbered.sublist (firstsBy_sublist [] _)).imp_of_mem ?_
    intro a b ha hb hlt
    refine ⟨a.1, b.1, ?_, ?_, hlt⟩
    · rw [hazardFor, List.head?_map, head?_filter_of_mem_firstsBy ha, Option.map_some]
    · rw [hazardFor, List.head?_map, head?_filter_of_mem_firstsBy hb, Option.map_some]
  order h hh := by
    obtain ⟨r, hr, rfl⟩ := mem_grouped_iff.mp hh
    have hself : r.1 ∈ (hazardFor (flagged d (nameGlobals globals)) r).transitions :=
      mem_transitions_hazardFor.mpr ⟨r.2, firstsBy_subset hr, rfl⟩
    exact ⟨List.ne_nil_of_mem hself,
      (flagged_numbered d globals).sublist (List.filter_sublist.map _)⟩
  weights h hh i g hget hname := by
    obtain ⟨r, hr, rfl⟩ := mem_grouped_iff.mp hh
    have hflagged := firstsBy_subset hr
    exact weights_needs ((arises_of_mem_flagged hglobals hflagged).slim hd)
      (perm_of_mem_hazardFor hd hglobals hflagged hget hname)

end Extracted

/-- Every accepted description is encoded with exactly the hazards of its
composition. -/
theorem hazards_extracted_exactly
    {text : Text} {d : Description} (hread : Description.read text = .ok d)
    (opts : CompositionOptions) {bound : Int64} (hbound : 0 ≤ bound) (name : Text) :
    ∃ enc, encode d (compose d opts).transitions ⟨bound, name⟩ = .ok enc ∧
      ExtractedExactly d (compose d opts).transitions enc.hazards := by
  obtain ⟨enc, hencode, h⟩ := exists_abstracts hread opts hbound name
  refine ⟨enc, hencode, ?_⟩
  rw [h.encodes.hazards_eq, Encoding.hazardsOf_eq_grouped]
  exact extractedExactly_grouped h.wellFormed fun g hg => arises_of_mem_compose hg

/-- The second and third transition differ in the order of the climbers only and
share a hazard; the first ends on a safe floor. -/
theorem hazards_extracted_exactly_rising :
    ∃ d enc, Description.read risingText = .ok d ∧ (0 : Int64) ≤ 2 ∧
      encode d (compose d ⟨1, false⟩).transitions ⟨2, []⟩ = .ok enc ∧
      enc.hazards.map (·.transitions) = ([["t2", "t3"], ["t4"]] : List (List Text)) ∧
      ExtractedExactly d (compose d ⟨1, false⟩).transitions enc.hazards := by
  obtain ⟨d, hread, hfound⟩ := Description.exists_eq_ok_of_any
    (x := Description.read risingText)
    (p := fun d => (encode d (compose d ⟨1, false⟩).transitions ⟨2, []⟩).toOption.any
      fun enc : Encoding =>
        decide (enc.hazards.map (·.transitions) = ([["t2", "t3"], ["t4"]] : List (List Text))))
    (by decide +kernel)
  obtain ⟨enc, hencode, hexact⟩ :=
    hazards_extracted_exactly hread ⟨1, false⟩ (by decide : (0 : Int64) ≤ 2) []
  simp only [hencode, Except.toOption, Option.any_some, decide_eq_true_eq] at hfound
  exact ⟨d, enc, hread, by decide, hencode, hfound, hexact⟩

end Population
