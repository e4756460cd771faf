import Population.Proofs.Analysis.Calls

/-!
# Deliberation

An analysis first deliberates, and when it has arrived at a verdict it writes the
verdict into the result and announces it.  A property of the session that no
single step breaks holds when the deliberation is over, however it ends: so the
job is still waiting for its result and the result has no verdict yet, and a run
that nobody cancels is not cancelled.
-/

namespace Population

open Refusal (run_get_bind run_modify_bind bind_of_ok bind_of_error)

namespace Act

variable {ε ε' α β : Type}

/-! ## Deliberation and announcement -/

/-- Asks about the hazards: the verdict, and the words to announce it. -/
def ponder (id : Text) (enc : Encoding) (path : Text) : Act AnalysisError (Verdict × Text) := do
  if enc.hazards.isEmpty then
    return (.safe, "no transition populates an unsafe state: protocol is safe")
  else
    let inquiries ← inquireAll enc path
    if !(← permitted) then throw .cancelled
    reportInquiries id (enc.hazards.zip inquiries)
    let v := Verdict.fold (inquiries.map fun i => i.finding.status)
    return (v, "verdict: protocol is " ++ v.text)

/-- The steps of an analysis up to its verdict. -/
def deliberate (id text : Text) : Act AnalysisError (Verdict × Text) := do
  (start id).refusing fun e => .service (.store e)
  let d ← readDescription id text
  let c ← composeAll id d
  let enc ← encodeAll id d c
  let path ← writeArtifact id enc
  ponder id enc path

theorem judge_eq (id : Text) (enc : Encoding) (path : Text) :
    judge id enc path = ponder id enc path >>= fun v => conclude id v.1 v.2 := by
  unfold judge ponder
  split
  · simp
  · rw [bind_assoc]
    refine bind_congr fun inquiries => ?_
    rw [bind_assoc]
    refine bind_congr fun allowed => ?_
    cases allowed with
    | false => rfl
    | true =>
        simp only [Bool.not_true, Bool.false_eq_true, if_false, bind_assoc, pure_bind]

theorem pipeline_eq (id text : Text) :
    pipeline id text = deliberate id text >>= fun v => conclude id v.1 v.2 := by
  simp only [pipeline, deliberate, judge_eq, bind_assoc]

/-! ## Steps before the verdict -/

/-- The operation keeps the property, refused or not. -/
def Preserves (P : Session → Prop) (act : Act ε α) : Prop :=
  ∀ s, P s → P (act s).2

section Preserves

variable {P : Session → Prop}

theorem preserves_pure (a : α) : Preserves P (pure a : Act ε α) :=
  fun _ h => h

theorem preserves_throw (e : ε) : Preserves P (throw e : Act ε α) :=
  fun _ h => h

theorem preserves_look (f : Service → α) : Preserves P (look f : Act ε α) :=
  fun _ h => h

theorem Preserves.refusing {wrap : ε → ε'} {act : Act ε α} (h : Preserves P act) :
    Preserves P (act.refusing wrap) :=
  fun s hs => h s hs

theorem Preserves.bind {act : Act ε α} {f : α → Act ε β} (hact : Preserves P act)
    (hf : ∀ a, Preserves P (f a)) : Preserves P (act >>= f) := by
  intro s hs
  have hnext := hact s hs
  rcases hrun : act s with ⟨e | a, s₁⟩
  · rw [hrun] at hnext
    rwa [bind_of_error hrun]
  · rw [hrun] at hnext
    rw [bind_of_ok hrun]
    exact hf a s₁ hnext

end Preserves

/-- A property that no single step of an analysis of the job breaks: neither a call
of the store, nor a change of the result that leaves the verdict alone, nor one of
the service that leaves its store and its oracle alone, nor a question. -/
structure Steady (id : Text) (P : Session → Prop) : Prop where
  start : Preserves P (start id)
  tell (kind : Kind) (message : Text) : Preserves P (tell id kind message)
  permitted : Preserves P (permitted : Act AnalysisError Bool)
  revise (f : JobResult → JobResult) (hf : ∀ r, (f r).verdict = r.verdict) :
    Preserves P (revise f)
  change (f : Service → Service)
    (hf : ∀ v, (f v).breakage = v.breakage ∧ (f v).registry.store = v.registry.store ∧
      (f v).oracle = v.oracle) :
    Preserves P (change f : Act AnalysisError Unit)
  consult (q : Query) (s : Session) :
    P s → P { s with context := (s.service.oracle.consult q s.context).allowance }

namespace Steady

variable {id : Text} {P : Session → Prop}

theorem measure (hP : Steady id P) (f : Metrics → Metrics) :
    Preserves P (measure f : Act AnalysisError Unit) :=
  hP.change _ fun _ => ⟨rfl, rfl, rfl⟩

theorem tellAll (hP : Steady id P) (kind : Kind) (messages : List Text) :
    Preserves P (tellAll id kind messages) := by
  induction messages with
  | nil => exact preserves_pure _
  | cons m rest ih => exact (hP.tell kind m).bind fun _ => ih

theorem readDescription (hP : Steady id P) (text : Text) :
    Preserves P (readDescription id text) := by
  unfold Act.readDescription
  split
  · exact preserves_throw _
  · refine Preserves.bind (hP.revise _ ?_) fun _ => (hP.tell _ _).bind fun _ =>
      (hP.tellAll _ _).bind fun _ => preserves_pure _
    exact fun _ => rfl

theorem composeAll (hP : Steady id P) (d : Description) : Preserves P (composeAll id d) := by
  refine (preserves_look _).bind fun opts => (hP.measure _).bind fun _ =>
    Preserves.bind (hP.revise _ ?_) fun _ => (hP.tellAll _ _).bind fun _ =>
      (hP.tell _ _).bind fun _ => preserves_pure _
  exact fun _ => rfl

theorem encodeAll (hP : Steady id P) (d : Description) (c : Composition) :
    Preserves P (encodeAll id d c) := by
  refine (preserves_look _).bind fun opts => ?_
  split
  · exact preserves_throw _
  · refine (hP.measure _).bind fun _ => Preserves.bind (hP.revise _ ?_) fun _ =>
      (hP.tell _ _).bind fun _ => preserves_pure _
    exact fun _ => rfl

theorem writeArtifact (hP : Steady id P) (enc : Encoding) :
    Preserves P (writeArtifact id enc) := by
  refine (preserves_look _).bind fun opts => (preserves_look _).bind fun w => ?_
  split
  · exact preserves_throw _
  · refine Preserves.bind (hP.change _ ?_) fun _ => ?_
    · exact fun _ => ⟨rfl, rfl, rfl⟩
    · split
      · exact preserves_throw _
      · refine Preserves.bind (hP.change _ ?_) fun _ => Preserves.bind (hP.revise _ ?_) fun _ =>
          (hP.tell _ _).bind fun _ => preserves_pure _
        · exact fun _ => ⟨rfl, rfl, rfl⟩
        · exact fun _ => rfl

theorem inquire (hP : Steady id P) (q : Query) (h : Hazard) : Preserves P (inquire q h) := by
  intro s hs
  unfold Act.inquire
  rw [run_look_bind, run_get_bind]
  rw [run_modify_bind]
  suffices hrest : Preserves P _ from hrest _ (hP.consult q s hs)
  refine Preserves.bind (hP.change _ ?_) fun _ => (hP.measure _).bind fun _ => ?_
  · exact fun _ => ⟨rfl, rfl, rfl⟩
  · split
    · exact preserves_pure _
    · exact (hP.measure _).bind fun _ => preserves_pure _

theorem inquireBy
    {ask : Hazard → Act AnalysisError (Option Inquiry)} (hask : ∀ h, Preserves P (ask h))
    (outlives : Nat → Nat → Bool) (hazards : List Hazard) (tasks failed : List Nat)
    (slots : List Inquiry) : Preserves P (inquireBy outlives ask hazards tasks failed slots) := by
  induction tasks generalizing failed slots with
  | nil => exact preserves_pure _
  | cons i rest ih =>
      unfold Act.inquireBy
      split
      · exact ih failed slots
      · split
        · exact ih failed slots
        · refine (hask _).bind fun answer => ?_
          split
          · exact ih _ slots
          · exact ih failed _

theorem inquireAll (hP : Steady id P) (enc : Encoding) (path : Text) :
    Preserves P (inquireAll enc path) :=
  (preserves_look _).bind fun _ => (preserves_look _).bind fun _ =>
    inquireBy (fun h => hP.inquire _ h) _ _ _ _ _

theorem reportInquiries (hP : Steady id P) (answered : List (Hazard × Inquiry)) :
    Preserves P (reportInquiries id answered) := by
  induction answered with
  | nil => exact preserves_pure _
  | cons first rest ih =>
      refine (hP.tellAll _ _).bind fun _ => (hP.tell _ _).bind fun _ =>
        Preserves.bind (hP.revise _ ?_) fun _ => ih
      exact fun _ => rfl

theorem ponder (hP : Steady id P) (enc : Encoding) (path : Text) :
    Preserves P (ponder id enc path) := by
  unfold Act.ponder
  split
  · exact preserves_pure _
  · refine (hP.inquireAll enc path).bind fun inquiries => hP.permitted.bind fun allowed => ?_
    split
    · exact (preserves_throw _).bind fun _ => (hP.reportInquiries _).bind fun _ => preserves_pure _
    · exact (hP.reportInquiries _).bind fun _ => preserves_pure _

/-- What every step keeps holds when the verdict is there. -/
theorem deliberate (hP : Steady id P) (text : Text) : Preserves P (deliberate id text) :=
  hP.start.refusing.bind fun _ => (hP.readDescription text).bind fun d =>
    (hP.composeAll d).bind fun c => (hP.encodeAll d c).bind fun enc =>
      (hP.writeArtifact enc).bind fun path => hP.ponder enc path

end Steady

end Act

/-! ## Undecided jobs -/

/-- The job waits for its result, and the result so far has no verdict. -/
structure Session.Undecided (s : Session) (id : Text) : Prop where
  awaits : s.service.Awaits id
  verdict : (s.draft.getD {}).verdict = []

/-- The caller's run is never cancelled, and no question cancels it. -/
structure Session.Unhurried (s : Session) : Prop where
  context : s.context = .unlimited
  oracle (q : Query) : (s.service.oracle.consult q .unlimited).allowance = .unlimited

theorem Session.Unhurried.of_poll
    {s s' : Session} (h : s.Unhurried) (hpoll : s.context.poll = some s'.context)
    (hframe : s'.frame = s.frame) : s'.Unhurried := by
  constructor
  · rw [h.context, Allowance.poll_unlimited] at hpoll
    exact (Option.some.inj hpoll).symm
  · have horacle : s'.service.oracle = s.service.oracle :=
      congrArg (fun frame => frame.2.1) hframe
    rw [horacle]
    exact h.oracle

namespace Act

variable {ε : Type} {id : Text} {s : Session}

theorem tell_cases (h : s.service.Awaits id) (kind : Kind) (message : Text) :
    (s.context.poll = none ∧ ∃ e, tell id kind message s = (.error e, s)) ∨
      ∃ context v, s.context.poll = some context ∧ v.Awaits id ∧
        tell id kind message s = (.ok (), { s with context, service := v }) := by
  rcases report_cases h kind message with ⟨hpoll, hrun⟩ | ⟨context, v, hpoll, hv, hrun⟩
  · exact .inl ⟨hpoll, _, refusing_of_error hrun _⟩
  · exact .inr ⟨context, v, hpoll, hv, refusing_of_ok hrun _⟩

theorem steady_undecided (id : Text) : Steady id (·.Undecided id) where
  start := by
    intro s hs
    rcases start_cases hs.awaits with ⟨-, hrun⟩ | ⟨context, v, -, hv, hrun⟩
    · rwa [hrun]
    · rw [hrun]
      exact ⟨hv, hs.verdict⟩
  tell kind message := by
    intro s hs
    rcases tell_cases hs.awaits kind message with ⟨-, e, hrun⟩ | ⟨context, v, -, hv, hrun⟩
    · rwa [hrun]
    · rw [hrun]
      exact ⟨hv, hs.verdict⟩
  permitted := by
    intro s hs
    rw [permitted_eq]
    exact ⟨hs.awaits, hs.verdict⟩
  revise f hf := fun s hs => ⟨hs.awaits, (hf _).trans hs.verdict⟩
  change f hf := fun s hs => ⟨hs.awaits.congr (hf _).1 (hf _).2.1, hs.verdict⟩
  consult q s hs := ⟨hs.awaits, hs.verdict⟩

theorem steady_unhurried (id : Text) : Steady id fun s => s.Undecided id ∧ s.Unhurried where
  start := by
    rintro s ⟨hs, hfree⟩
    refine ⟨(steady_undecided id).start s hs, ?_⟩
    rcases start_cases hs.awaits with ⟨-, hrun⟩ | ⟨context, v, hpoll, -, hrun⟩
    · rwa [hrun]
    · rw [hrun]
      exact hfree.of_poll hpoll ((keeps_call _ _).eq hrun)
  tell kind message := by
    rintro s ⟨hs, hfree⟩
    refine ⟨(steady_undecided id).tell kind message s hs, ?_⟩
    rcases tell_cases hs.awaits kind message with ⟨-, e, hrun⟩ | ⟨context, v, hpoll, -, hrun⟩
    · rwa [hrun]
    · rw [hrun]
      exact hfree.of_poll hpoll ((keeps_tell _ _ _).eq hrun)
  permitted := by
    rintro s ⟨hs, hfree⟩
    refine ⟨(steady_undecided id).permitted s hs, ?_⟩
    rw [permitted_eq]
    refine hfree.of_poll ?_ rfl
    rw [hfree.context]
    rfl
  revise f hf := fun s ⟨hs, hfree⟩ =>
    ⟨(steady_undecided id).revise f hf s hs, hfree.context, hfree.oracle⟩
  change f hf := by
    rintro s ⟨hs, hfree⟩
    refine ⟨(steady_undecided id).change f hf s hs, hfree.context, ?_⟩
    intro q
    have horacle : ((change f : Act AnalysisError Unit) s).2.service.oracle = s.service.oracle :=
      (hf s.service).2.2
    rw [horacle]
    exact hfree.oracle q
  consult q s := by
    rintro ⟨hs, hfree⟩
    refine ⟨(steady_undecided id).consult q s hs, ?_, hfree.oracle⟩
    rw [hfree.context]
    exact hfree.oracle q

end Act

end Population
