import Population.Proofs.Composition.Keys
import Population.Proofs.Composition.Odometer
import Population.Proofs.Description.Index
import Population.Proofs.Description.WellFormed
import Mathlib.Data.List.Perm.Basic

/-!
# Which synchronizations are composed

A global transition arises from an environment transition, an expansion of its
slots, and one local transition for each occurrence of the expansion that
expects exactly the other occurrences.  Composition without deduplication lists
exactly these; deduplication keeps one of each class of transitions that differ
in the order of their participants.
-/

namespace Population

/-! ## One choice per occurrence -/

/-- A local transition performs `action` in a group whose actions are
`expansion` while the environment performs `sync`. -/
structure LocalTransition.Performs
    (t : LocalTransition) (sync : Text) (expansion : List Text) (action : Text) : Prop where
  action_eq : t.action = action
  sync_eq : t.sync = sync
  others : t.concurrent.Perm (expansion.erase action)

theorem LocalTransition.key_eq_iff
    {t : LocalTransition} {sync action : Text} {expansion : List Text} {i : Nat}
    (hi : expansion[i]? = some action) :
    t.key = .of action sync (coOccurring expansion i) ↔
      t.Performs sync expansion action := by
  obtain ⟨hlt, hget⟩ := List.getElem?_eq_some_iff.mp hi
  have hothers : (coOccurring expansion i).Perm (expansion.erase action) := by
    have hidx : (action :: expansion.eraseIdx i).Perm expansion := by
      rw [← hget]
      exact List.getElem_cons_eraseIdx_perm hlt
    have hmem : action ∈ expansion := List.mem_of_getElem? hi
    have herase : (action :: expansion.eraseIdx i).Perm (action :: expansion.erase action) :=
      hidx.trans (List.perm_cons_erase hmem)
    exact (Text.sort_perm _).trans herase.cons_inv
  rw [LocalTransition.key, TransitionKey.of_eq_of_iff]
  constructor
  · rintro ⟨haction, hsync, hperm⟩
    exact ⟨haction, hsync, hperm.trans hothers⟩
  · rintro ⟨haction, hsync, hperm⟩
    exact ⟨haction, hsync, hperm.trans hothers.symm⟩

/-- All ways to take one member of each list. -/
theorem mem_choices {α : Type} {lists : List (List α)} {choice : List α} :
    choice ∈ choices lists ↔ List.Forall₂ (· ∈ ·) choice lists := by
  induction lists generalizing choice with
  | nil => simp [choices]
  | cons xs rest ih =>
      simp only [choices, List.mem_flatMap, List.mem_map, ih]
      constructor
      · rintro ⟨x, hx, tail, htail, rfl⟩
        exact .cons hx htail
      · rintro (_ | ⟨hx, htail⟩)
        exact ⟨_, hx, _, htail, rfl⟩

variable {ts : List LocalTransition} {sync : Text} {expansion : List Text}

/-- The transitions that perform the occurrence at a position. -/
theorem mem_lookup_iff
    {i : Nat} {action : Text} (hi : expansion[i]? = some action) {t : LocalTransition} :
    t ∈ (TransitionIndex.ofList ts).lookup (.of action sync (coOccurring expansion i)) ↔
      t ∈ ts ∧ t.Performs sync expansion action := by
  rw [TransitionIndex.lookup_ofList, List.mem_filter, decide_eq_true_eq,
    LocalTransition.key_eq_iff hi]

/-- One declared local transition for each occurrence. -/
def Realizes
    (ts : List LocalTransition) (sync : Text) (expansion : List Text)
    (choice : List LocalTransition) (occurrences : List Text) : Prop :=
  List.Forall₂ (fun t action => t ∈ ts ∧ t.Performs sync expansion action) choice occurrences

theorem Realizes.map_action
    {choice : List LocalTransition} {occurrences : List Text}
    (h : Realizes ts sync expansion choice occurrences) :
    choice.map (·.action) = occurrences := by
  unfold Realizes at h
  induction h with
  | nil => rfl
  | cons hfirst _ ih => rw [List.map_cons, hfirst.2.action_eq, ih]

theorem Realizes.forall_mem
    {choice : List LocalTransition} {occurrences : List Text}
    (h : Realizes ts sync expansion choice occurrences) {t : LocalTransition}
    (ht : t ∈ choice) : t ∈ ts ∧ t.Performs sync expansion t.action := by
  unfold Realizes at h
  induction h with
  | nil => simp at ht
  | cons hfirst _ ih =>
      rcases List.mem_cons.mp ht with rfl | ht
      · exact ⟨hfirst.1, rfl, hfirst.2.sync_eq, hfirst.2.action_eq ▸ hfirst.2.others⟩
      · exact ih ht

/-- The candidates from a position on describe exactly the choices for the
occurrences that remain. -/
theorem forall₂_candidatesFrom
    {i : Nat} {rest : List Text} {lists : List (List LocalTransition)}
    (hrest : expansion.drop i = rest)
    (h : candidatesFrom (.ofList ts) sync expansion i rest = .ok lists)
    {choice : List LocalTransition} :
    List.Forall₂ (· ∈ ·) choice lists ↔ Realizes ts sync expansion choice rest := by
  induction rest generalizing i lists choice with
  | nil =>
      cases h
      simp [Realizes]
  | cons action rest ih =>
      have hi : expansion[i]? = some action := by
        rw [← List.head?_drop, hrest, List.head?_cons]
      have hdrop : expansion.drop (i + 1) = rest := by
        rw [← List.tail_drop, hrest, List.tail_cons]
      simp only [candidatesFrom] at h
      split at h
      · simp at h
      next =>
        cases htail : candidatesFrom (.ofList ts) sync expansion (i + 1) rest with
        | error k => simp [htail, Except.map] at h
        | ok tail =>
            rw [htail] at h
            cases h
            constructor
            · rintro (_ | ⟨hx, hxs⟩)
              exact .cons ((mem_lookup_iff hi).mp hx) ((ih hdrop htail).mp hxs)
            · rintro (_ | ⟨hx, hxs⟩)
              exact .cons ((mem_lookup_iff hi).mpr hx) ((ih hdrop htail).mpr hxs)

/-- Where an occurrence has no candidate there is no choice at all. -/
theorem not_realizes_of_candidatesFrom_error
    {i : Nat} {rest : List Text} {k : TransitionKey}
    (hrest : expansion.drop i = rest)
    (h : candidatesFrom (.ofList ts) sync expansion i rest = .error k)
    (choice : List LocalTransition) : ¬Realizes ts sync expansion choice rest := by
  induction rest generalizing i k choice with
  | nil => simp [candidatesFrom] at h
  | cons action rest ih =>
      have hi : expansion[i]? = some action := by
        rw [← List.head?_drop, hrest, List.head?_cons]
      have hdrop : expansion.drop (i + 1) = rest := by
        rw [← List.tail_drop, hrest, List.tail_cons]
      simp only [candidatesFrom] at h
      rintro (_ | ⟨hx, hxs⟩)
      split at h
      next hnone =>
        have hmem := (mem_lookup_iff hi).mpr hx
        rw [hnone] at hmem
        simp at hmem
      next =>
        cases htail : candidatesFrom (.ofList ts) sync expansion (i + 1) rest with
        | error k' => exact ih hdrop htail _ hxs
        | ok tail => simp [htail, Except.map] at h

/-- An expansion contributes one global transition for each choice. -/
theorem mem_realized_iff {et : EnvironmentTransition} {g : GlobalTransition} :
    g ∈ realized (realize (.ofList ts) et expansion) ↔
      ∃ choice, Realizes ts et.sync expansion choice expansion ∧
        g = et.joinedBy expansion choice := by
  unfold realize
  cases h : candidates (.ofList ts) et.sync expansion with
  | error k =>
      have hnone := not_realizes_of_candidatesFrom_error (i := 0) rfl h
      simp only [realized, List.not_mem_nil, false_iff]
      rintro ⟨choice, hchoice, -⟩
      exact hnone choice hchoice
  | ok lists =>
      simp only [realized, List.mem_map, mem_choices,
        forall₂_candidatesFrom (i := 0) rfl h]
      constructor
      · rintro ⟨choice, hchoice, rfl⟩
        exact ⟨choice, hchoice, rfl⟩
      · rintro ⟨choice, hchoice, rfl⟩
        exact ⟨choice, hchoice, rfl⟩

/-! ## Expansions -/

/-- A slot is filled by some agents, at least one and at most `limit`. -/
def FillsSlot (limit : Nat) (action : Text) (block : List Text) : Prop :=
  ∃ n, 1 ≤ n ∧ n ≤ limit ∧ block = List.replicate n action

/-- Filling slots as counted fills each of them. -/
theorem exists_fill_iff {limit : Nat} {slots : List Text} :
    (∃ counts, counts.length = slots.length ∧ (∀ n ∈ counts, 1 ≤ n ∧ n ≤ limit) ∧
        fill slots counts = expansion) ↔
      ∃ blocks, List.Forall₂ (FillsSlot limit) slots blocks ∧ expansion = blocks.flatten := by
  induction slots generalizing expansion with
  | nil => simp [fill, eq_comm]
  | cons action slots ih =>
      constructor
      · rintro ⟨counts, hlength, hwithin, rfl⟩
        obtain ⟨n, counts, rfl⟩ := List.exists_cons_of_length_eq_add_one hlength
        obtain ⟨⟨hpos, hle⟩, hrest⟩ := List.forall_mem_cons.mp hwithin
        obtain ⟨blocks, hblocks, hfill⟩ :=
          ih.mp ⟨counts, Nat.succ.inj hlength, hrest, rfl⟩
        exact ⟨List.replicate n action :: blocks, .cons ⟨n, hpos, hle, rfl⟩ hblocks,
          by rw [fill_cons, hfill, List.flatten_cons]⟩
      · rintro ⟨blocks, hblocks, rfl⟩
        obtain ⟨block, tail, ⟨n, hpos, hle, rfl⟩, htail, rfl⟩ :=
          List.forall₂_cons_left_iff.mp hblocks
        obtain ⟨counts, hlength, hwithin, hfill⟩ := ih.mpr ⟨tail, htail, rfl⟩
        exact ⟨n :: counts, by simp [hlength], List.forall_mem_cons.mpr ⟨⟨hpos, hle⟩, hwithin⟩,
          by rw [fill_cons, hfill, List.flatten_cons]⟩

theorem mem_expand_iff_blocks {limit : Int} {slots : List Text} :
    expansion ∈ expand slots limit ↔
      ∃ blocks, List.Forall₂ (FillsSlot (slotLimit limit)) (Text.sort slots) blocks ∧
        expansion = blocks.flatten := by
  rw [mem_expand_iff_fill, ← exists_fill_iff, (Text.sort_perm slots).length_eq]

/-- The multiset of actions takes each slot at least once and at most `limit`
times. -/
def Expands (limit : Nat) (slots expansion : List Text) : Prop :=
  ∃ blocks, List.Forall₂ (FillsSlot limit) slots blocks ∧
    expansion.Perm blocks.flatten

theorem Expands.of_perm
    {limit : Nat} {slots slots' : List Text} (hslots : slots'.Perm slots)
    (h : Expands limit slots expansion) : Expands limit slots' expansion := by
  obtain ⟨blocks, hblocks, hperm⟩ := h
  obtain ⟨blocks', hblocks', hperm'⟩ := List.perm_comp_forall₂ hslots hblocks
  exact ⟨blocks', hblocks', hperm.trans hperm'.symm.flatten⟩

theorem expands_of_mem_expand
    {limit : Int} {slots : List Text} (h : expansion ∈ expand slots limit) :
    Expands (slotLimit limit) slots expansion := by
  obtain ⟨blocks, hblocks, rfl⟩ := mem_expand_iff_blocks.mp h
  have hsorted : Expands (slotLimit limit) (Text.sort slots) blocks.flatten :=
    ⟨blocks, hblocks, List.Perm.refl _⟩
  exact hsorted.of_perm (Text.sort_perm slots).symm

/-- Every way to fill the slots is listed, up to the order of the actions. -/
theorem exists_mem_expand_of_expands
    {limit : Int} {slots : List Text} (h : Expands (slotLimit limit) slots expansion) :
    ∃ listed ∈ expand slots limit, listed.Perm expansion := by
  obtain ⟨blocks, hblocks, hperm⟩ := h.of_perm (Text.sort_perm slots)
  exact ⟨blocks.flatten, mem_expand_iff_blocks.mpr ⟨blocks, hblocks, rfl⟩, hperm.symm⟩

/-! ## Composition -/

/-- The global transition joins an environment transition with one local
transition for each occurrence of an expansion of its slots. -/
def Arises (d : Description) (limit : Int) (g : GlobalTransition) : Prop :=
  ∃ et ∈ d.environment.transitions, ∃ expansion ∈ expand et.agents limit, ∃ choice,
    Realizes d.agent.transitions et.sync expansion choice expansion ∧
      g = et.joinedBy expansion choice

section Firsts

variable {α κ : Type} [DecidableEq κ] {key : α → κ}

theorem firstsBy_subset {seen : List κ} {xs : List α} : firstsBy key seen xs ⊆ xs := by
  induction xs generalizing seen with
  | nil => simp [firstsBy]
  | cons a rest ih =>
      intro b hb
      simp only [firstsBy] at hb
      split at hb
      · exact List.mem_cons_of_mem a (ih hb)
      · rcases List.mem_cons.mp hb with rfl | hb
        · exact List.mem_cons_self
        · exact List.mem_cons_of_mem a (ih hb)

/-- Every key that is new is kept once. -/
theorem exists_mem_firstsBy
    {seen : List κ} {xs : List α} {a : α} (ha : a ∈ xs) (hnew : key a ∉ seen) :
    ∃ b ∈ firstsBy key seen xs, key b = key a := by
  induction xs generalizing seen with
  | nil => simp at ha
  | cons c rest ih =>
      simp only [firstsBy]
      by_cases hc : key c ∈ seen
      · have hne : a ≠ c := by
          rintro rfl
          exact hnew hc
        rw [if_pos (List.contains_iff_mem.mpr hc)]
        exact ih ((List.mem_cons.mp ha).resolve_left hne) hnew
      · rw [if_neg (by simpa using hc)]
        by_cases hkey : key c = key a
        · exact ⟨c, List.mem_cons_self, hkey⟩
        · have hne : a ≠ c := by
            rintro rfl
            exact hkey rfl
          have hnew' : key a ∉ key c :: seen := by
            simp [hnew, Ne.symm hkey]
          obtain ⟨b, hb, hbkey⟩ := ih ((List.mem_cons.mp ha).resolve_left hne) hnew'
          exact ⟨b, List.mem_cons_of_mem c hb, hbkey⟩

end Firsts

section Considered

variable {d : Description} {opts : CompositionOptions} {et : EnvironmentTransition}

theorem expansionsOf_subset :
    expansionsOf opts et ⊆ expand et.agents opts.maxConcurrency := by
  unfold expansionsOf
  simp only
  split
  · exact firstsBy_subset
  · exact List.Subset.refl _

/-- Every expansion of identifiers is considered. -/
theorem mem_expansionsOf
    (hagents : ∀ a ∈ et.agents, Name.isValid a = true)
    (h : expansion ∈ expand et.agents opts.maxConcurrency) :
    expansion ∈ expansionsOf opts et := by
  unfold expansionsOf
  simp only
  split
  · obtain ⟨kept, hkept, hkey⟩ := exists_mem_firstsBy h (List.not_mem_nil (a := expansionKey _))
    have hvalid : ∀ {e : List Text}, e ∈ expand et.agents opts.maxConcurrency →
        ∀ a ∈ e, Name.isValid a = true :=
      fun he a ha => hagents a (subset_of_mem_expand he ha)
    rwa [eq_of_expansionKey_eq (hvalid (firstsBy_subset hkept)) (hvalid h) hkey] at hkept
  · exact h

theorem arises_of_mem_outcomes
    {g : GlobalTransition} (h : g ∈ (outcomes d opts).flatMap realized) :
    Arises d opts.maxConcurrency g := by
  simp only [outcomes, List.mem_flatMap, List.mem_map] at h
  obtain ⟨_, ⟨et, het, expansion, hexpansion, rfl⟩, hg⟩ := h
  exact ⟨et, het, expansion, expansionsOf_subset hexpansion, mem_realized_iff.mp hg⟩

theorem mem_outcomes_of_arises
    (hd : d.WellFormed) {g : GlobalTransition} (h : Arises d opts.maxConcurrency g) :
    g ∈ (outcomes d opts).flatMap realized := by
  obtain ⟨et, het, expansion, hexpansion, hg⟩ := h
  simp only [outcomes, List.mem_flatMap, List.mem_map]
  exact ⟨_, ⟨et, het, expansion,
    mem_expansionsOf (hd.environmentAction_valid et het).2 hexpansion, rfl⟩,
    mem_realized_iff.mpr hg⟩

end Considered

/-- Composition lists nothing but synchronizations. -/
theorem arises_of_mem_compose
    {d : Description} {opts : CompositionOptions} {g : GlobalTransition}
    (h : g ∈ (compose d opts).transitions) : Arises d opts.maxConcurrency g := by
  apply arises_of_mem_outcomes
  simp only [compose] at h
  split at h
  · exact firstsBy_subset h
  · exact h

/-- Every synchronization is listed, or one that differs in the order of its
participants only. -/
theorem exists_mem_compose_of_arises
    {d : Description} (hd : d.WellFormed) (opts : CompositionOptions) {g : GlobalTransition}
    (h : Arises d opts.maxConcurrency g) :
    ∃ listed ∈ (compose d opts).transitions, listed.canonical = g.canonical := by
  have hmem := mem_outcomes_of_arises hd h
  simp only [compose]
  split
  · exact exists_mem_firstsBy hmem List.not_mem_nil
  · exact ⟨g, hmem, rfl⟩

end Population
