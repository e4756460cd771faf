import Population.Proofs.Composition.Synchronization
import Population.Proofs.Description.ReadingBack
import Mathlib.Data.List.Forall2

/-!
# Groups in writing and in composition

A line for an agent transition lists the whole group, the own action included, or
no group at all when the agent acts alone.  The reader takes one occurrence of the
own action out of the group, and composition takes one position out of an
expansion.  With repeated actions these can be different occurrences, but the same
actions are left, as often as each other.  So a transition is found for a position
of an expansion exactly if its group is the expansion in some order.
-/

namespace Population

open Text (byte)

/-! ## Lines of agent transitions -/

namespace Description

/-- Whether a line is read as an entry of a protocol map. -/
def Line.hasColon (l : Line) : Bool :=
  l.text.contains (byte ':')

/-- Whether a line is read as a transition. -/
def Line.hasComma (l : Line) : Bool :=
  l.text.contains (byte ',')

/-- The lines for agent transitions stand behind the lines of states and actions
and the entries of the agent protocol, up to the first line without a comma. -/
def localLines (lines : List Line) : List Line :=
  ((lines.drop 2).dropWhile Line.hasColon).takeWhile Line.hasComma

/-- The fields of the line are those of the transition, and the third one lists
the group. -/
structure Line.Writes (l : Line) (t : LocalTransition) (group : List Text) : Prop where
  fields : ∃ groupText,
    (Text.split (byte ',') l.text).map Text.trim =
        [t.before, t.sync, groupText, t.action, t.after] ∧
      groupText.words = group
  line : t.line = l.number

theorem readFields_eq_ok
    {part : Part} {want : Nat} {l : Line} {fields : List Text}
    (h : readFields part want l = .ok fields) :
    fields = (Text.split (byte ',') l.text).map Text.trim := by
  unfold readFields at h
  split at h
  · simp [Line.fail] at h
  · simp only at h
    split at h
    · simp [Line.fail] at h
    · cases h
      rfl

/-- The reader keeps the group without one occurrence of the own action. -/
theorem readLocalTransition_grouped
    {l : Line} {t : LocalTransition} (h : readLocalTransition l = .ok t) :
    ∃ group, l.Writes t group ∧ t.GroupedAs group := by
  obtain ⟨fields, hfields, h⟩ := exists_of_bind_eq_ok h
  have hsplit := readFields_eq_ok hfields
  split at h
  next before sync groupText action after =>
    obtain ⟨-, -, h⟩ := exists_of_bind_eq_ok h
    split at h
    · simp [Line.fail] at h
    next hown =>
      cases h
      refine ⟨groupText.words, ⟨⟨groupText, hsplit.symm, rfl⟩, rfl⟩, ?_⟩
      by_cases hnil : groupText.words = []
      · exact .inr ⟨hnil, by simp [hnil, othersOf, Text.sort, Text.sortBy]⟩
      · have hmem : action ∈ groupText.words := by
          simpa [hnil] using hown
        refine .inl ((List.perm_cons_erase hmem).trans ?_)
        exact ((Text.sort_perm _).cons action).symm
  next => simp [Line.fail] at h

theorem readProtocolMap_dropWhile
    {part : Part} {lines rest : List Line} {entries : List ProtocolEntry}
    (h : readProtocolMap part lines = .ok (entries, rest)) :
    rest = lines.dropWhile Line.hasColon := by
  induction lines generalizing entries with
  | nil =>
      cases h
      rfl
  | cons l tail ih =>
      unfold readProtocolMap at h
      by_cases hcolon : byte ':' ∈ l.text
      · obtain ⟨left, right, htext, hleft⟩ := List.eq_append_cons_of_mem hcolon
        have hskip : l.hasColon = true := List.contains_iff_mem.mpr hcolon
        rw [htext, Text.cut_append_cons hleft] at h
        obtain ⟨e, -, h⟩ := exists_of_bind_eq_ok h
        obtain ⟨⟨es, rest'⟩, htail, h⟩ := exists_of_bind_eq_ok h
        cases h
        rw [List.dropWhile_cons_of_pos hskip]
        exact ih htail
      · have hstop : ¬l.hasColon = true := fun hskip => hcolon (List.contains_iff_mem.mp hskip)
        rw [Text.cut_of_not_mem hcolon] at h
        cases h
        rw [List.dropWhile_cons_of_neg hstop]

theorem readLocalTransitions_takeWhile
    {lines rest : List Line} {ts : List LocalTransition}
    (h : readLocalTransitions lines = .ok (ts, rest)) :
    List.Forall₂ (fun l t => readLocalTransition l = .ok t) (lines.takeWhile Line.hasComma) ts := by
  induction lines generalizing ts with
  | nil =>
      cases h
      exact .nil
  | cons l tail ih =>
      unfold readLocalTransitions at h
      split at h
      next hcomma =>
        obtain ⟨t, ht, h⟩ := exists_of_bind_eq_ok h
        obtain ⟨⟨ts', rest'⟩, htail, h⟩ := exists_of_bind_eq_ok h
        cases h
        have htake : l.hasComma = true := hcomma
        rw [List.takeWhile_cons_of_pos htake]
        exact .cons ht (ih htail)
      next hcomma =>
        cases h
        have hstop : ¬l.hasComma = true := hcomma
        rw [List.takeWhile_cons_of_neg hstop]
        exact .nil

/-- Each of these lines is read as one agent transition. -/
theorem readSections_localLines
    {lines : List Line} {d : Description} {layout : Layout}
    (h : readSections lines = .ok (d, layout)) :
    List.Forall₂ (fun l t => readLocalTransition l = .ok t) (localLines lines)
      d.agent.transitions := by
  obtain ⟨⟨states, lines₁⟩, hstates, h⟩ := exists_of_bind_eq_ok h
  obtain ⟨⟨actions, lines₂⟩, hactions, h⟩ := exists_of_bind_eq_ok h
  obtain ⟨⟨protocol, lines₃⟩, hprotocol, h⟩ := exists_of_bind_eq_ok h
  obtain ⟨⟨transitions, lines₄⟩, htransitions, h⟩ := exists_of_bind_eq_ok h
  -- The sections behind the agent transitions do not change them.
  have hagent : d.agent.transitions = transitions := by
    obtain ⟨⟨initial, lines₅⟩, -, h⟩ := exists_of_bind_eq_ok h
    obtain ⟨⟨leave, lines₆⟩, -, h⟩ := exists_of_bind_eq_ok h
    obtain ⟨⟨envStates, lines₇⟩, -, h⟩ := exists_of_bind_eq_ok h
    obtain ⟨⟨envActions, lines₈⟩, -, h⟩ := exists_of_bind_eq_ok h
    obtain ⟨⟨envProtocol, lines₉⟩, -, h⟩ := exists_of_bind_eq_ok h
    obtain ⟨⟨envInitial, lines₁₀⟩, -, h⟩ := exists_of_bind_eq_ok h
    obtain ⟨envTransitions, -, h⟩ := exists_of_bind_eq_ok h
    cases h
    rfl
  obtain ⟨l, rfl, -⟩ := readLine_eq_ok hstates
  obtain ⟨l', rfl, -⟩ := readLine_eq_ok hactions
  rw [readProtocolMap_dropWhile hprotocol] at htransitions
  rw [hagent]
  exact readLocalTransitions_takeWhile htransitions

theorem sections_of_read {t : Text} {d : Description} (h : read t = .ok d) :
    ∃ layout, readSections (significantLines t) = .ok (d, layout) := by
  unfold read at h
  split at h
  · simp at h
  · split at h
    next hlines =>
      cases h
      obtain ⟨⟨_, layout⟩, hsections, h⟩ := exists_of_bind_eq_ok hlines
      obtain ⟨-, -, h⟩ := exists_of_bind_eq_ok h
      cases h
      exact ⟨layout, hsections⟩
    next => simp at h

end Description

/-! ## Positions of expansions -/

/-- A transition performs its action in a group of exactly the actions that its
line lists. -/
theorem LocalTransition.GroupedAs.performs_iff
    {t : LocalTransition} {group expansion : List Text} {sync action : Text}
    (h : t.GroupedAs group) (haction : action ∈ expansion) :
    t.Performs sync expansion action ↔
      t.sync = sync ∧ t.action = action ∧
        (group.Perm expansion ∨ group = [] ∧ expansion.length = 1) := by
  have hwhole : t.Performs sync expansion action ↔
      t.sync = sync ∧ t.action = action ∧ (t.action :: t.concurrent).Perm expansion := by
    constructor
    · rintro ⟨rfl, hsync, hothers⟩
      exact ⟨hsync, rfl, List.cons_perm_iff_perm_erase.mpr ⟨haction, hothers⟩⟩
    · rintro ⟨hsync, rfl, hperm⟩
      exact ⟨rfl, hsync, (List.cons_perm_iff_perm_erase.mp hperm).2⟩
  rw [hwhole]
  refine and_congr_right fun _ => and_congr_right fun hown => ?_
  rcases h with hgroup | ⟨hgroup, halone⟩
  · have hne : group ≠ [] := by
      rintro rfl
      exact List.cons_ne_nil _ _ (List.nil_perm.mp hgroup)
    rw [or_iff_left fun hempty => hne hempty.1]
    exact ⟨hgroup.trans, hgroup.symm.trans⟩
  · have hne : ¬group.Perm expansion := by
      rw [hgroup, List.nil_perm]
      exact List.ne_nil_of_mem haction
    rw [or_iff_right hne, and_iff_right hgroup, halone, hown]
    constructor
    · intro hperm
      exact hperm.length_eq.symm
    · intro hlength
      obtain ⟨only, rfl⟩ := List.length_eq_one_iff.mp hlength
      rw [List.mem_singleton.mp haction]

/-- Reader and composition share one convention for groups.  Every line for an
agent transition is read as a transition with its fields, and for any expansion
the transition is found for a position under a synchronizing action exactly if it
has this synchronizing action, its own action stands at the position, and its
group is the expansion in some order or is left out for an agent alone. -/
theorem group_convention
    {text : Text} {d : Description} (hread : Description.read text = .ok d) :
    List.Forall₂
      (fun l t => ∃ group, Description.Line.Writes l t group ∧
        ∀ (sync : Text) (expansion : List Text) (i : Nat) (hi : i < expansion.length),
          t ∈ (TransitionIndex.ofList d.agent.transitions).lookup
              (.of expansion[i] sync (coOccurring expansion i)) ↔
            t.sync = sync ∧ t.action = expansion[i] ∧
              (group.Perm expansion ∨ group = [] ∧ expansion.length = 1))
      (Description.localLines (Description.significantLines text)) d.agent.transitions := by
  obtain ⟨layout, hsections⟩ := Description.sections_of_read hread
  have hlines := Description.readSections_localLines hsections
  have hdeclared := (List.forall₂_and_left _ _).mpr ⟨fun t ht => ht, hlines.flip⟩
  refine hdeclared.flip.imp fun l t ⟨ht, hline⟩ => ?_
  obtain ⟨group, hwrites, hgrouped⟩ := Description.readLocalTransition_grouped hline
  refine ⟨group, hwrites, fun sync expansion i hi => ?_⟩
  have hoccurs : expansion[i] ∈ expansion := List.getElem_mem hi
  rw [mem_lookup_iff (List.getElem?_eq_getElem hi), and_iff_right ht,
    hgrouped.performs_iff hoccurs]

/-- A group with a repeated action.  The reader takes the first `go` out of it, the
composition the second one out of the sorted expansion. -/
theorem group_convention_mixed :
    ∃ d t, Description.read Description.mixedText = .ok d ∧ t ∈ d.agent.transitions ∧
      t.line = 6 ∧
      (t ∈ (TransitionIndex.ofList d.agent.transitions).lookup
          (.of "go" "sync" (coOccurring ["go", "go", "stop"] 1))) ∧
      t ∉ (TransitionIndex.ofList d.agent.transitions).lookup
          (.of "stop" "sync" (coOccurring ["go", "go", "stop"] 2)) := by
  obtain ⟨d, hread, -⟩ := Description.exists_eq_ok_of_any
    (x := Description.read Description.mixedText) (p := fun _ => true) (by decide +kernel)
  have hfound := group_convention hread
  have hlines : Description.localLines (Description.significantLines Description.mixedText) =
      [⟨6, "idle, sync, stop go go, go, active"⟩, ⟨7, "idle,sync,,stop,idle"⟩] := by
    decide +kernel
  rw [hlines] at hfound
  obtain ⟨t, rest, ⟨group, ⟨⟨groupText, hfields, hgroup⟩, hline⟩, hlookup⟩, -, hd⟩ :=
    List.forall₂_cons_left_iff.mp hfound
  have hsplit : (Text.split (byte ',') "idle, sync, stop go go, go, active").map Text.trim =
      (["idle", "sync", "stop go go", "go", "active"] : List Text) := by decide +kernel
  rw [hsplit] at hfields
  simp only [List.cons.injEq, and_true] at hfields
  obtain ⟨-, hsync, rfl, haction, -⟩ := hfields
  have hwords : Text.words "stop go go" = (["stop", "go", "go"] : List Text) := by decide +kernel
  rw [hwords] at hgroup
  subst hgroup
  refine ⟨d, t, hread, by rw [hd]; exact List.mem_cons_self, by rw [hline]; rfl, ?_, ?_⟩
  · exact (hlookup "sync" ["go", "go", "stop"] 1 (by decide)).mpr
      ⟨hsync.symm, haction.symm, .inl (by decide)⟩
  · intro hmem
    obtain ⟨-, hown, -⟩ := (hlookup "sync" ["go", "go", "stop"] 2 (by decide)).mp hmem
    rw [← haction] at hown
    exact absurd hown (by decide)

end Population
