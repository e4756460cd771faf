import Population.Proofs.Composition.Sides

/-!
# Deduplication

Composition may drop repeated expansions of one environment transition and
repeated global transitions.  The first of these is no more than a shortcut: an
expansion that was met before brings nothing but transitions whose keys were met
before.  So of each class of equivalent global transitions exactly the first
member is kept, and of each environment transition's diagnostics exactly the
first about each expansion.
-/

namespace Population

/-! ## First occurrences -/

section Firsts

variable {α β κ : Type} [DecidableEq κ] {key : α → κ}

/-- What was seen matters as a set only. -/
theorem firstsBy_congr {s t : List κ} (h : ∀ k, k ∈ s ↔ k ∈ t) (xs : List α) :
    firstsBy key s xs = firstsBy key t xs := by
  induction xs generalizing s t with
  | nil => rfl
  | cons a rest ih =>
      have hcontains : s.contains (key a) = t.contains (key a) := by
        rw [Bool.eq_iff_iff, List.contains_iff_mem, List.contains_iff_mem, h]
      have hcons : ∀ k, k ∈ key a :: s ↔ k ∈ key a :: t := by
        intro k
        rw [List.mem_cons, List.mem_cons, h]
      simp only [firstsBy, hcontains, ih h, ih hcons]

theorem firstsBy_append (seen : List κ) (xs ys : List α) :
    firstsBy key seen (xs ++ ys) =
      firstsBy key seen xs ++ firstsBy key (xs.map key ++ seen) ys := by
  induction xs generalizing seen with
  | nil => rfl
  | cons a rest ih =>
      simp only [List.cons_append, firstsBy, ih]
      split
      next hseen =>
        congr 1
        apply firstsBy_congr
        intro k
        have hkey : key a ∈ seen := List.contains_iff_mem.mp hseen
        simp only [List.map_cons, List.cons_append, List.mem_cons, List.mem_append]
        constructor
        · exact .inr
        · rintro (rfl | hk)
          · exact .inr hkey
          · exact hk
      next =>
        rw [List.cons_append]
        congr 2
        apply firstsBy_congr
        intro k
        simp only [List.map_cons, List.cons_append, List.mem_cons, List.mem_append]
        tauto

theorem firstsBy_eq_nil {seen : List κ} {xs : List α} (h : ∀ a ∈ xs, key a ∈ seen) :
    firstsBy key seen xs = [] := by
  induction xs with
  | nil => rfl
  | cons a rest ih =>
      obtain ⟨ha, hrest⟩ := List.forall_mem_cons.mp h
      rw [firstsBy, if_pos (List.contains_iff_mem.mpr ha), ih hrest]

theorem firstsBy_sublist (seen : List κ) (xs : List α) :
    (firstsBy key seen xs).Sublist xs := by
  induction xs generalizing seen with
  | nil => exact List.Sublist.slnil
  | cons a rest ih =>
      rw [firstsBy]
      split
      · exact (ih seen).cons a
      · exact (ih _).cons_cons a

theorem firstsBy_fresh {seen : List κ} {xs : List α} :
    ∀ a ∈ firstsBy key seen xs, key a ∉ seen := by
  induction xs generalizing seen with
  | nil => simp [firstsBy]
  | cons a rest ih =>
      rw [firstsBy]
      split
      · exact ih
      next hnew =>
        rw [List.contains_iff_mem] at hnew
        refine List.forall_mem_cons.mpr ⟨hnew, ?_⟩
        intro b hb
        exact fun hmem => ih b hb (List.mem_cons_of_mem (key a) hmem)

theorem firstsBy_pairwise (seen : List κ) (xs : List α) :
    (firstsBy key seen xs).Pairwise fun a b => key a ≠ key b := by
  induction xs generalizing seen with
  | nil => exact List.Pairwise.nil
  | cons a rest ih =>
      rw [firstsBy]
      split
      · exact ih seen
      · refine List.pairwise_cons.mpr ⟨?_, ih _⟩
        intro b hb heq
        exact firstsBy_fresh b hb (by simp [heq])

/-- Keeping the first of each key is keeping the first of each class, when keys
tell the classes apart. -/
theorem firstsBy_eq_eraseDupsBy
    {r : α → α → Bool} {xs : List α}
    (hr : ∀ a ∈ xs, ∀ b ∈ xs, r a b = decide (key a = key b)) :
    firstsBy key [] xs = xs.eraseDupsBy r := by
  -- `done` holds what was kept so far, and its keys are the ones that were seen.
  have hloop : ∀ rest done : List α, (∀ a ∈ rest, a ∈ xs) → (∀ a ∈ done, a ∈ xs) →
      List.eraseDupsBy.loop r rest done = done.reverse ++ firstsBy key (done.map key) rest := by
    intro rest
    induction rest with
    | nil => simp [List.eraseDupsBy.loop, firstsBy]
    | cons a rest ih =>
        intro done hrest hdone
        obtain ⟨ha, hrest⟩ := List.forall_mem_cons.mp hrest
        have hany : done.any (r a) = (done.map key).contains (key a) := by
          rw [Bool.eq_iff_iff, List.any_eq_true, List.contains_iff_mem, List.mem_map]
          constructor
          · rintro ⟨b, hb, hrelated⟩
            rw [hr a ha b (hdone b hb), decide_eq_true_eq] at hrelated
            exact ⟨b, hb, hrelated.symm⟩
          · rintro ⟨b, hb, heq⟩
            exact ⟨b, hb, by rw [hr a ha b (hdone b hb), decide_eq_true_eq, heq]⟩
        simp only [List.eraseDupsBy.loop, firstsBy, hany]
        split
        next hseen => rw [hseen, if_pos rfl, ih done hrest hdone]
        next hnew =>
          rw [hnew, ih (a :: done) hrest (List.forall_mem_cons.mpr ⟨ha, hdone⟩)]
          simp
  exact (hloop xs [] (fun _ ha => ha) (by simp)).symm

/-- A source that was met before brings nothing new. -/
theorem firstsBy_flatMap_firstsBy
    [DecidableEq β] {f : β → List α} {seen : List κ} {done : List β}
    (hdone : ∀ b ∈ done, ∀ a ∈ f b, key a ∈ seen) (bs : List β) :
    firstsBy key seen ((firstsBy id done bs).flatMap f) =
      firstsBy key seen (bs.flatMap f) := by
  induction bs generalizing seen done with
  | nil => rfl
  | cons b rest ih =>
      rw [firstsBy, id, List.flatMap_cons, firstsBy_append]
      by_cases hb : b ∈ done
      · have hold := hdone b hb
        have hseen : ∀ k, k ∈ (f b).map key ++ seen ↔ k ∈ seen := by
          intro k
          rw [List.mem_append, List.mem_map]
          constructor
          · rintro (⟨a, ha, rfl⟩ | hk)
            · exact hold a ha
            · exact hk
          · exact .inr
        rw [if_pos (List.contains_iff_mem.mpr hb), ih hdone, firstsBy_eq_nil hold,
          List.nil_append, firstsBy_congr hseen]
      · rw [if_neg (by simpa using hb), List.flatMap_cons, firstsBy_append, ih]
        intro c hc a ha
        rcases List.mem_cons.mp hc with rfl | hc
        · exact List.mem_append_left _ (List.mem_map.mpr ⟨a, ha, rfl⟩)
        · exact List.mem_append_right _ (hdone c hc a ha)

/-- Lists that agree in their first occurrences do so behind one another. -/
theorem firstsBy_flatMap_congr
    {F G : β → List α} {bs : List β}
    (h : ∀ b ∈ bs, ∀ seen, firstsBy key seen (F b) = firstsBy key seen (G b)) (seen : List κ) :
    firstsBy key seen (bs.flatMap F) = firstsBy key seen (bs.flatMap G) := by
  have hmem : ∀ {xs : List α} (k : κ), k ∈ xs.map key ↔ k ∈ (firstsBy key [] xs).map key := by
    intro xs k
    rw [List.mem_map, List.mem_map]
    constructor
    · rintro ⟨a, ha, rfl⟩
      exact exists_mem_firstsBy ha List.not_mem_nil
    · rintro ⟨a, ha, rfl⟩
      exact ⟨a, firstsBy_subset ha, rfl⟩
  induction bs generalizing seen with
  | nil => rfl
  | cons b rest ih =>
      obtain ⟨hb, hrest⟩ := List.forall_mem_cons.mp h
      have hkeys : ∀ k, k ∈ (F b).map key ++ seen ↔ k ∈ (G b).map key ++ seen := by
        intro k
        rw [List.mem_append, List.mem_append, hmem, hb [], ← hmem]
      rw [List.flatMap_cons, List.flatMap_cons, firstsBy_append, firstsBy_append, hb seen,
        firstsBy_congr hkeys, ih hrest]

/-- First occurrences are found before or after a partial function that shows
where its values come from. -/
theorem filterMap_firstsBy
    [DecidableEq β] {f : β → Option α} {source : α → β}
    (hsource : ∀ b a, f b = some a → source a = b) {seen kept bs : List β}
    (hseen : ∀ b ∈ bs, (f b).isSome = true → (b ∈ seen ↔ b ∈ kept)) :
    (firstsBy id seen bs).filterMap f = firstsBy source kept (bs.filterMap f) := by
  induction bs generalizing seen kept with
  | nil => rfl
  | cons b rest ih =>
      obtain ⟨hb, hrest⟩ := List.forall_mem_cons.mp hseen
      rw [firstsBy, id]
      cases hf : f b with
      | none =>
          rw [List.filterMap_cons_none hf]
          split
          · exact ih hrest
          -- A source without an entry is seen but never kept.
          · rw [List.filterMap_cons_none hf]
            apply ih
            intro c hc hsome
            have hne : c ≠ b := by
              rintro rfl
              simp [hf] at hsome
            rw [List.mem_cons, or_iff_right hne, hrest c hc hsome]
      | some a =>
          obtain rfl := hsource b a hf
          have hiff : source a ∈ seen ↔ source a ∈ kept := hb (by simp [hf])
          rw [List.filterMap_cons_some hf, firstsBy]
          by_cases hmem : source a ∈ seen
          · rw [if_pos (List.contains_iff_mem.mpr hmem),
              if_pos (List.contains_iff_mem.mpr (hiff.mp hmem)), ih hrest]
          · rw [if_neg (by simpa using hmem), if_neg (by simpa using fun h => hmem (hiff.mpr h)),
              List.filterMap_cons_some hf, ih]
            intro c hc hsome
            rw [List.mem_cons, List.mem_cons, hrest c hc hsome]

end Firsts

/-! ## Composition -/

/-- What an environment transition reports about an expansion. -/
def Description.diagnose
    (d : Description) (et : EnvironmentTransition) (expansion : List Text) : Option Unmatched :=
  unrealized (realize (.ofList d.agent.transitions) et expansion)

theorem Description.of_diagnose_eq_some
    {d : Description} {et : EnvironmentTransition} {expansion : List Text} {u : Unmatched}
    (h : d.diagnose et expansion = some u) : u.environment = et ∧ u.expansion = expansion := by
  unfold Description.diagnose realize at h
  cases hcandidates : candidates (.ofList d.agent.transitions) et.sync expansion with
  | error key =>
      rw [hcandidates] at h
      cases h
      exact ⟨rfl, rfl⟩
  | ok lists => simp [hcandidates, unrealized] at h

theorem unmatched_eq (d : Description) (opts : CompositionOptions) :
    (compose d opts).unmatched = d.environment.transitions.flatMap fun et =>
      (expansionsOf opts et).filterMap (d.diagnose et) := by
  simp only [compose, outcomes, List.filterMap_flatMap, List.filterMap_map]
  rfl

section Composed

variable {d : Description} (hd : d.WellFormed) (limit : Int)
include hd

theorem expansionsOf_deduplicated
    {et : EnvironmentTransition} (het : et ∈ d.environment.transitions) :
    expansionsOf ⟨limit, true⟩ et = firstsBy id [] (expand et.agents limit) := by
  have hvalid : ∀ e ∈ expand et.agents limit, ∀ a ∈ e, Name.isValid a = true :=
    fun e he a ha => (hd.environmentAction_valid et het).2 a (subset_of_mem_expand he ha)
  have hkey : ∀ xs ∈ expand et.agents limit, ∀ ys ∈ expand et.agents limit,
      decide (xs = ys) = decide (expansionKey xs = expansionKey ys) := by
    intro xs hxs ys hys
    rw [decide_eq_decide]
    exact ⟨fun h => h ▸ rfl, eq_of_expansionKey_eq (hvalid xs hxs) (hvalid ys hys)⟩
  exact (firstsBy_eq_eraseDupsBy hkey).trans (firstsBy_eq_eraseDupsBy fun _ _ _ _ => rfl).symm

/-- Dropping repeated expansions does not change which transitions come first. -/
theorem firstsBy_canonical_outcomes :
    firstsBy GlobalTransition.canonical [] ((outcomes d ⟨limit, true⟩).flatMap realized) =
      firstsBy GlobalTransition.canonical [] ((outcomes d ⟨limit, false⟩).flatMap realized) := by
  simp only [outcomes, List.flatMap_assoc, List.flatMap_map]
  apply firstsBy_flatMap_congr
  intro et het seen
  rw [expansionsOf_deduplicated hd limit het]
  exact firstsBy_flatMap_firstsBy (by simp) (expand et.agents limit)

theorem transitions_eq_firstsBy :
    (compose d ⟨limit, true⟩).transitions =
      firstsBy GlobalTransition.canonical [] (compose d ⟨limit, false⟩).transitions :=
  firstsBy_canonical_outcomes hd limit

theorem canonical_eq_iff_of_mem
    {opts : CompositionOptions} {g h : GlobalTransition} (hg : g ∈ (compose d opts).transitions)
    (hh : h ∈ (compose d opts).transitions) : g.canonical = h.canonical ↔ g.Equivalent h :=
  GlobalTransition.canonical_eq_iff ((arises_of_mem_compose hg).named hd)
    ((arises_of_mem_compose hh).named hd)

/-- Of each class of equivalent transitions the first member is kept. -/
theorem transitions_deduplicated :
    (compose d ⟨limit, true⟩).transitions =
      (compose d ⟨limit, false⟩).transitions.eraseDupsBy fun g h => decide (g.Equivalent h) := by
  have hdecides : ∀ g ∈ (compose d ⟨limit, false⟩).transitions,
      ∀ h ∈ (compose d ⟨limit, false⟩).transitions,
        decide (g.Equivalent h) = decide (g.canonical = h.canonical) := by
    intro g hg h hh
    rw [decide_eq_decide]
    exact (canonical_eq_iff_of_mem hd hg hh).symm
  rw [transitions_eq_firstsBy hd limit]
  exact firstsBy_eq_eraseDupsBy hdecides

theorem transitions_pairwise :
    (compose d ⟨limit, true⟩).transitions.Pairwise fun g h => ¬g.Equivalent h := by
  have hkeys : (compose d ⟨limit, true⟩).transitions.Pairwise
      fun g h => g.canonical ≠ h.canonical := by
    rw [transitions_eq_firstsBy hd limit]
    exact firstsBy_pairwise [] _
  refine hkeys.imp_of_mem ?_
  intro g h hg hh hne hequiv
  exact hne ((canonical_eq_iff_of_mem hd hg hh).mpr hequiv)

/-- Of the diagnostics of each environment transition the first about each
expansion is kept. -/
theorem exists_unmatched_deduplicated :
    ∃ entries : EnvironmentTransition → List Unmatched,
      (∀ et, ∀ u ∈ entries et, u.environment = et) ∧
      (compose d ⟨limit, false⟩).unmatched = d.environment.transitions.flatMap entries ∧
      (compose d ⟨limit, true⟩).unmatched = d.environment.transitions.flatMap fun et =>
        (entries et).eraseDupsBy fun u v => decide (u.expansion = v.expansion) := by
  refine ⟨fun et => (expand et.agents limit).filterMap (d.diagnose et), ?_,
    unmatched_eq d ⟨limit, false⟩, ?_⟩
  · intro et u hu
    obtain ⟨expansion, -, hsome⟩ := List.mem_filterMap.mp hu
    exact (Description.of_diagnose_eq_some hsome).1
  · rw [unmatched_eq]
    apply List.flatMap_congr
    intro et het
    have hsource : ∀ expansion u, d.diagnose et expansion = some u → u.expansion = expansion :=
      fun _ _ hsome => (Description.of_diagnose_eq_some hsome).2
    have hfirsts : (firstsBy id [] (expand et.agents limit)).filterMap (d.diagnose et) =
        firstsBy Unmatched.expansion [] ((expand et.agents limit).filterMap (d.diagnose et)) :=
      filterMap_firstsBy hsource fun _ _ _ => Iff.rfl
    rw [expansionsOf_deduplicated hd limit het, hfirsts]
    exact firstsBy_eq_eraseDupsBy fun _ _ _ _ => rfl

end Composed

end Population
