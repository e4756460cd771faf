import Population.Proofs.Description.Writing

/-!
# Line numbers in descriptions

Every line number that the reader hands out is the number of a line that it was
given, or zero at the end of the input: the parts of a description carry the line
where they stand, a complaint the line where it was met.  Nothing depends on the
numbers.  So when the lines are numbered anew, and zero stays zero, the reader does
the same and gives the same result with the new numbers.
-/

namespace Population

variable (move : Nat → Nat)

/-! ## New numbers -/

/-- The entry with a new line number. -/
def ProtocolEntry.renumber (e : ProtocolEntry) : ProtocolEntry :=
  { e with line := move e.line.toNat }

/-- The transition with a new line number. -/
def LocalTransition.renumber (t : LocalTransition) : LocalTransition :=
  { t with line := move t.line.toNat }

/-- The transition with a new line number. -/
def EnvironmentTransition.renumber (t : EnvironmentTransition) : EnvironmentTransition :=
  { t with line := move t.line.toNat }

namespace Description

/-- The description with new line numbers. -/
def renumber (d : Description) : Description where
  agent := { d.agent with
    protocol := d.agent.protocol.map (·.renumber move)
    transitions := d.agent.transitions.map (·.renumber move) }
  environment := { d.environment with
    protocol := d.environment.protocol.map (·.renumber move)
    transitions := d.environment.transitions.map (·.renumber move) }

/-- The line with a new number. -/
def Line.renumber (l : Line) : Line :=
  { l with number := move l.number }

/-- The complaint with a new line number. -/
def Malformed.renumber (e : Malformed) : Malformed :=
  { e with line := move e.line }

/-- The error with a new line number, if it has one. -/
def ReadError.renumber : ReadError → ReadError
  | lineTooLong => lineTooLong
  | malformed e => malformed (e.renumber move)

/-- The layout with new line numbers. -/
def Layout.renumber (layout : Layout) : Layout where
  agentStates := move layout.agentStates
  agentInitial := move layout.agentInitial
  agentLeave := move layout.agentLeave
  environmentStates := move layout.environmentStates
  environmentInitial := move layout.environmentInitial

/-- The outcome with new line numbers; `f` renumbers what was read. -/
def renumbered {α β : Type} (f : α → β) : Except Malformed α → Except Malformed β
  | .ok a => .ok (f a)
  | .error e => .error (e.renumber move)

/-! ## Computations that may fail -/

section Computations

variable {move} {α β γ δ : Type} {f : α → β}

/-- Renumbering passes through a computation step by step. -/
theorem renumbered_bind
    {x : Except Malformed α} {x' : Except Malformed β} {g : α → Except Malformed γ}
    {g' : β → Except Malformed δ} {h : γ → δ} (hx : x' = renumbered move f x)
    (hg : ∀ a, g' (f a) = renumbered move h (g a)) :
    (x' >>= g') = renumbered move h (x >>= g) := by
  subst hx
  cases x with
  | error e => rfl
  | ok a => exact hg a

/-- A test that does not look at the numbers goes the same way. -/
theorem renumbered_ite
    {c : Prop} [Decidable c] {x y : Except Malformed α} {x' y' : Except Malformed β}
    (hx : x' = renumbered move f x) (hy : y' = renumbered move f y) :
    (if c then x' else y') = renumbered move f (if c then x else y) := by
  by_cases h : c
  · rw [if_pos h, if_pos h, hx]
  · rw [if_neg h, if_neg h, hy]

theorem mapM_renumber
    {g : α → Except Malformed γ} {g' : β → Except Malformed δ} {h : γ → δ}
    (hg : ∀ a, g' (f a) = renumbered move h (g a)) (xs : List α) :
    (xs.map f).mapM g' = renumbered move (List.map h) (xs.mapM g) := by
  induction xs with
  | nil => rfl
  | cons a rest ih =>
      rw [List.map_cons, List.mapM_cons, List.mapM_cons]
      refine renumbered_bind (hg a) fun c => ?_
      exact renumbered_bind ih fun cs => rfl

theorem forM_renumber
    {g : α → Except Malformed Unit} {g' : β → Except Malformed Unit}
    (hg : ∀ a, g' (f a) = renumbered move id (g a)) (xs : List α) :
    (xs.map f).forM g' = renumbered move id (xs.forM g) := by
  induction xs with
  | nil => rfl
  | cons a rest ih => exact renumbered_bind (hg a) fun _ => ih

end Computations

/-! ## Sections -/

section Sections

variable {move} {part : Part} {l : Line}

theorem Line.checkNames_renumber {names : List Text} :
    (l.renumber move).checkNames part names = renumbered move id (l.checkNames part names) := by
  unfold Line.checkNames
  split <;> rfl

theorem readLine_renumber
    {α β : Type} {g : α → β} {f : Line → Except Malformed α} {f' : Line → Except Malformed β}
    (hzero : move 0 = 0) (hf : ∀ l, f' (l.renumber move) = renumbered move g (f l))
    (lines : List Line) :
    readLine part f' (lines.map (·.renumber move)) =
      renumbered move (Prod.map g (List.map (·.renumber move))) (readLine part f lines) := by
  cases lines with
  | nil => simp [readLine, renumbered, Malformed.renumber, hzero]
  | cons l rest =>
      simp only [List.map_cons, readLine, hf l]
      cases f l <;> rfl

theorem readAgentState_renumber (entry : Text) :
    readAgentState (l.renumber move) entry = renumbered move id (readAgentState l entry) := by
  unfold readAgentState
  split
  · rfl
  · split_ifs
    · rfl
    · split
      · rfl
      · split_ifs <;> rfl

theorem readAgentStates_renumber (hzero : move 0 = 0) (lines : List Line) :
    readAgentStates (lines.map (·.renumber move)) =
      renumbered move (Prod.map id (List.map (·.renumber move))) (readAgentStates lines) := by
  refine readLine_renumber hzero (fun l => ?_) lines
  refine renumbered_ite rfl ?_
  have hentry (entry : Text) : readAgentState (l.renumber move) (id entry) =
      renumbered move id (readAgentState l entry) := readAgentState_renumber entry
  have hentries := mapM_renumber hentry (tightenColons l.text).items
  rw [List.map_id, List.map_id_fun] at hentries
  exact hentries

theorem readNameList_renumber (hzero : move 0 = 0) (lines : List Line) :
    readNameList part (lines.map (·.renumber move)) =
      renumbered move (Prod.map id (List.map (·.renumber move))) (readNameList part lines) := by
  refine readLine_renumber hzero (fun l => ?_) lines
  exact renumbered_ite rfl (renumbered_bind Line.checkNames_renumber fun _ => rfl)

theorem readSingleName_renumber (hzero : move 0 = 0) (lines : List Line) :
    readSingleName part (lines.map (·.renumber move)) =
      renumbered move (Prod.map id (List.map (·.renumber move))) (readSingleName part lines) := by
  refine readLine_renumber hzero (fun l => ?_) lines
  exact renumbered_ite rfl rfl

theorem readProtocolEntry_renumber (left right : Text) :
    readProtocolEntry part (l.renumber move) left right =
      renumbered move (·.renumber move) (readProtocolEntry part l left right) := by
  refine renumbered_ite rfl (renumbered_ite rfl ?_)
  exact renumbered_bind Line.checkNames_renumber fun _ => rfl

theorem readProtocolMap_renumber (lines : List Line) :
    readProtocolMap part (lines.map (·.renumber move)) =
      renumbered move (Prod.map (List.map (·.renumber move)) (List.map (·.renumber move)))
        (readProtocolMap part lines) := by
  induction lines with
  | nil => rfl
  | cons l rest ih =>
      simp only [List.map_cons, readProtocolMap]
      have htext : (l.renumber move).text = l.text := rfl
      rw [htext]
      split
      · rfl
      · refine renumbered_bind (readProtocolEntry_renumber _ _) fun e => ?_
        exact renumbered_bind ih fun _ => rfl

theorem readFields_renumber {want : Nat} :
    readFields part want (l.renumber move) = renumbered move id (readFields part want l) :=
  renumbered_ite rfl (renumbered_ite rfl rfl)

theorem readLocalTransition_renumber (l : Line) :
    readLocalTransition (l.renumber move) =
      renumbered move (·.renumber move) (readLocalTransition l) := by
  refine renumbered_bind readFields_renumber fun fields => ?_
  dsimp only [id]
  split
  · refine renumbered_bind Line.checkNames_renumber fun _ => ?_
    exact renumbered_ite rfl rfl
  · rfl

theorem readLocalTransitions_renumber (lines : List Line) :
    readLocalTransitions (lines.map (·.renumber move)) =
      renumbered move (Prod.map (List.map (·.renumber move)) (List.map (·.renumber move)))
        (readLocalTransitions lines) := by
  induction lines with
  | nil => rfl
  | cons l rest ih =>
      refine renumbered_ite ?_ rfl
      refine renumbered_bind (readLocalTransition_renumber l) fun t => ?_
      exact renumbered_bind ih fun _ => rfl

theorem readEnvironmentTransition_renumber (l : Line) :
    readEnvironmentTransition (l.renumber move) =
      renumbered move (·.renumber move) (readEnvironmentTransition l) := by
  refine renumbered_ite rfl ?_
  refine renumbered_bind readFields_renumber fun fields => ?_
  dsimp only [id]
  split
  · exact renumbered_bind Line.checkNames_renumber fun _ => rfl
  · rfl

theorem nextNumber_renumber (hzero : move 0 = 0) (lines : List Line) :
    nextNumber (lines.map (·.renumber move)) = move (nextNumber lines) := by
  cases lines with
  | nil => exact hzero.symm
  | cons l rest => rfl

/-- The eleven sections. -/
theorem readSections_renumber (hzero : move 0 = 0) (lines : List Line) :
    readSections (lines.map (·.renumber move)) =
      renumbered move (Prod.map (·.renumber move) (·.renumber move)) (readSections lines) := by
  unfold readSections
  refine renumbered_bind (readAgentStates_renumber hzero _) fun ⟨states, lines₁⟩ => ?_
  refine renumbered_bind (readNameList_renumber hzero _) fun ⟨actions, lines₂⟩ => ?_
  refine renumbered_bind (readProtocolMap_renumber _) fun ⟨protocol, lines₃⟩ => ?_
  refine renumbered_bind (readLocalTransitions_renumber _) fun ⟨transitions, lines₄⟩ => ?_
  refine renumbered_bind (readSingleName_renumber hzero _) fun ⟨initial, lines₅⟩ => ?_
  refine renumbered_bind (readSingleName_renumber hzero _) fun ⟨leave, lines₆⟩ => ?_
  refine renumbered_bind (readNameList_renumber hzero _) fun ⟨envStates, lines₇⟩ => ?_
  refine renumbered_bind (readNameList_renumber hzero _) fun ⟨envActions, lines₈⟩ => ?_
  refine renumbered_bind (readProtocolMap_renumber _) fun ⟨envProtocol, lines₉⟩ => ?_
  refine renumbered_bind (readSingleName_renumber hzero _) fun ⟨envInitial, lines₁₀⟩ => ?_
  refine renumbered_bind (mapM_renumber readEnvironmentTransition_renumber _) fun _ => ?_
  simp only [nextNumber_renumber hzero]
  rfl

end Sections

/-! ## Cross references -/

section References

variable {move}

theorem requireState_renumber
    {declared : List Text} {line : Nat} {part : Part} {fault : Text → ReadFault} (s : Text) :
    requireState declared (move line) part fault s =
      renumbered move id (requireState declared line part fault s) :=
  renumbered_ite rfl rfl

theorem checkAgentStates_renumber {line : Nat} {seen : List Text} (names : List Text) :
    checkAgentStates (move line) seen names =
      renumbered move id (checkAgentStates line seen names) := by
  induction names generalizing seen with
  | nil => rfl
  | cons s rest ih => exact renumbered_ite rfl ih

theorem checkEnvironmentStates_renumber
    {line : Nat} {agentStates seen : List Text} (names : List Text) :
    checkEnvironmentStates (move line) agentStates seen names =
      renumbered move id (checkEnvironmentStates line agentStates seen names) := by
  induction names generalizing seen with
  | nil => rfl
  | cons s rest ih => exact renumbered_ite rfl (renumbered_ite rfl ih)

section Parts

variable {declared : List Text} {part : Part} {fault : Text → ReadFault}

theorem requireEntries_renumber (entries : List ProtocolEntry) :
    (entries.map (·.renumber move)).forM
        (fun e => requireState declared e.line.toNat part fault e.state) =
      renumbered move id
        (entries.forM fun e => requireState declared e.line.toNat part fault e.state) := by
  refine forM_renumber (fun e => ?_) entries
  exact requireState_renumber e.state

theorem requireStates_renumber {line : Nat} (states : List Text) :
    states.forM (requireState declared (move line) part fault) =
      renumbered move id (states.forM (requireState declared line part fault)) := by
  have hstate (s : Text) : requireState declared (move line) part fault (id s) =
      renumbered move id (requireState declared line part fault s) := requireState_renumber s
  have hstates := forM_renumber hstate states
  rwa [List.map_id] at hstates

end Parts

theorem checkReferences_renumber (d : Description) (layout : Layout) :
    checkReferences (d.renumber move) (layout.renumber move) =
      renumbered move id (checkReferences d layout) := by
  unfold checkReferences
  refine renumbered_bind (checkAgentStates_renumber _) fun _ => ?_
  refine renumbered_bind (checkEnvironmentStates_renumber _) fun _ => ?_
  refine renumbered_ite rfl ?_
  refine renumbered_ite rfl ?_
  refine renumbered_bind (requireState_renumber _) fun _ => ?_
  refine renumbered_bind (requireState_renumber _) fun _ => ?_
  refine renumbered_bind (requireState_renumber _) fun _ => ?_
  refine renumbered_bind (requireEntries_renumber d.agent.protocol) fun _ => ?_
  refine renumbered_bind (requireEntries_renumber d.environment.protocol) fun _ => ?_
  refine renumbered_bind (forM_renumber (fun t => ?_) d.agent.transitions) fun _ => ?_
  · exact requireStates_renumber [t.before, t.after]
  refine forM_renumber (fun t => ?_) d.environment.transitions
  exact requireStates_renumber [t.before, t.after]

end References

/-- Lines with new numbers give the same result with the new numbers. -/
theorem readLines_renumber {move : Nat → Nat} (hzero : move 0 = 0) (lines : List Line) :
    readLines (lines.map (·.renumber move)) =
      renumbered move (·.renumber move) (readLines lines) := by
  refine renumbered_bind (readSections_renumber hzero lines) fun ⟨d, layout⟩ => ?_
  exact renumbered_bind (checkReferences_renumber d layout) fun _ => rfl

end Description

end Population
