import Population.CommandLine.Jobs
import Population.Proofs.Analysis.Deliberation

/-!
# What a job ends with

An analysis that stops before its verdict leaves a failed job without one.  The
announcement of the verdict is one more update, and it is refused when the
caller's run has been cancelled meanwhile: the job then ends as failed although
its result carries the verdict.
-/

namespace Population

open Refusal (run_get_bind bind_of_ok bind_of_error)

namespace Act

variable {ε : Type} {id : Text} {s : Session}

/-! ## The end of an analysis -/

/-- The verdict of a deliberation in words; none when there is no verdict. -/
def wordOf : Except AnalysisError (Verdict × Text) → Text
  | .ok v => v.1.text
  | .error _ => []

/-- The status of a job after its analysis. -/
def endOf : Except AnalysisError Unit → Status
  | .ok _ => .completed
  | .error _ => .failed

theorem conclude_cases (h : s.service.Awaits id) (w : Verdict) (message : Text) :
    ∃ outcome s', conclude id w message s = (outcome, s') ∧ s'.service.Awaits id ∧
      (s'.draft.getD {}).verdict = w.text ∧
      (endOf outcome = .completed ↔ s.context.isCancelled = false) := by
  let decided : Session :=
    { s with draft := some { s.draft.getD {} with verdict := w.text } }
  have hrun : conclude id w message s = tell id w.kind message decided := rfl
  have hcancelled : s.context.isCancelled = s.context.poll.isNone := rfl
  rw [hrun, hcancelled]
  rcases tell_cases (s := decided) h w.kind message with
    ⟨hpoll, e, htell⟩ | ⟨context, v, hpoll, hv, htell⟩
  · refine ⟨_, _, htell, h, rfl, ?_⟩
    have hpoll : s.context.poll = none := hpoll
    rw [hpoll]
    simp [endOf]
  · refine ⟨_, _, htell, hv, rfl, ?_⟩
    have hpoll : s.context.poll = some context := hpoll
    rw [hpoll]
    simp [endOf]

/-- An analysis ends well exactly if it has arrived at a verdict and is not cancelled
by then; the result has the verdict in either case. -/
theorem pipeline_ends (h : s.Undecided id) (text : Text) :
    ∃ outcome s', pipeline id text s = (outcome, s') ∧ s'.service.Awaits id ∧
      (s'.draft.getD {}).verdict = wordOf (deliberate id text s).1 ∧
      (endOf outcome = .completed ↔
        (∃ v, (deliberate id text s).1 = .ok v) ∧
          (deliberate id text s).2.context.isCancelled = false) := by
  have hkept := (steady_undecided id).deliberate text s h
  rw [pipeline_eq]
  rcases hrun : deliberate id text s with ⟨e | v, s₁⟩
  · rw [hrun] at hkept
    rw [bind_of_error hrun]
    refine ⟨_, _, rfl, hkept.awaits, hkept.verdict, ?_⟩
    simp [endOf]
  · rw [hrun] at hkept
    rw [bind_of_ok hrun]
    obtain ⟨outcome, s', hconclude, hawaits, hverdict, hends⟩ :=
      conclude_cases hkept.awaits v.1 v.2
    refine ⟨outcome, s', hconclude, hawaits, hverdict, hends.trans ?_⟩
    simp

theorem close_records
    (h : s.service.Awaits id) (hcontext : s.context = .unlimited) {status : Status}
    (hstatus : status.isTerminal = true) :
    ∃ v, (close id status : Act ε Unit) s = (.ok (), { s with service := v }) ∧
      v.Records id status s.draft := by
  obtain ⟨r, hfinish, hrecords⟩ := h.finish hstatus s.draft
  refine ⟨_, ?_, hrecords⟩
  unfold close
  rw [run_get_bind]
  refine orElse_of_ok ?_ _
  unfold finish
  rw [call_eq _ _ h.sound, hcontext]
  simp only [Allowance.poll_unlimited, Option.isSome_some, Option.getD_some, hfinish]

theorem complete_records (h : s.service.Awaits id) (hcontext : s.context = .unlimited) :
    ∃ v, (complete id : Act ε Unit) s = (.ok (), { s with service := v }) ∧
      v.Records id .completed s.draft := by
  let counted : Session :=
    { s with service := { s.service with
        metrics := s.service.metrics.countJob ((s.draft.map (·.verdict)).getD []) } }
  have hcounted : counted.service.Awaits id := h.congr rfl rfl
  exact close_records hcounted hcontext rfl

theorem fail_records
    (h : s.service.Awaits id) (hcontext : s.context = .unlimited) (e : AnalysisError) :
    ∃ v, (fail id e : Act ε Unit) s = (.ok (), { s with service := v }) ∧
      v.Records id .failed s.draft := by
  let counted : Session :=
    { s with service := { s.service with metrics := s.service.metrics.countJob failedLabel } }
  have hcounted : counted.service.Awaits id := h.congr rfl rfl
  have hrun : (fail id e : Act ε Unit) s =
      (((report id .error e.message).orElse fun e =>
        logLost "job update lost" id e.message) >>= fun _ => close id .failed) counted := rfl
  rw [hrun]
  rcases report_cases hcounted .error e.message with
    ⟨hpoll, -⟩ | ⟨context, v, hpoll, hv, hreport⟩
  · have hpoll : s.context.poll = none := hpoll
    rw [hcontext] at hpoll
    cases hpoll
  · have hpoll : s.context.poll = some context := hpoll
    have hsame : context = s.context := by
      rw [hcontext] at hpoll ⊢
      exact (Option.some.inj hpoll).symm
    subst hsame
    rw [bind_of_ok (orElse_of_ok hreport _)]
    exact close_records (s := { s with service := v }) hv hcontext rfl

/-- Ends the job of an analysis in the way of its outcome. -/
def settle (id : Text) : Except AnalysisError Unit → Act ε Unit
  | .ok () => complete id
  | .error e => fail id e

theorem settle_records
    (ε : Type) (h : s.service.Awaits id) (hcontext : s.context = .unlimited)
    (outcome : Except AnalysisError Unit) :
    ∃ v, (settle id outcome : Act ε Unit) s = (.ok (), { s with service := v }) ∧
      v.Records id (endOf outcome) s.draft := by
  cases outcome with
  | ok u => exact complete_records h hcontext
  | error e => exact fail_records h hcontext e

end Act

/-- The session in which an analysis begins: it is counted, and there is no result yet. -/
def Session.begun (s : Session) : Session where
  service := { s.service with
    running := s.service.running + 1
    metrics := { s.service.metrics with inFlight := s.service.metrics.inFlight + 1 } }
  context := s.context

theorem Session.undecided_begun {s : Session} {id : Text} (h : s.service.Awaits id) :
    s.begun.Undecided id :=
  ⟨h.congr rfl rfl, rfl⟩

theorem Session.Unhurried.begun {s : Session} (h : s.Unhurried) : s.begun.Unhurried :=
  ⟨h.context, h.oracle⟩

namespace Act

variable {ε : Type} {id : Text} {s : Session}

theorem analyze_eq (id text : Text) (s : Session) :
    (analyze id text : Act ε Unit) s =
      (detached (settle id (pipeline id text s.begun).1) >>= fun _ => countRunning (-1))
        (pipeline id text s.begun).2 := by
  have hrun : (analyze id text : Act ε Unit) s =
      (ExceptT.lift (pipeline id text).run >>= fun outcome => do
        detached (match outcome with
          | .ok () => complete id
          | .error e => fail id e)
        countRunning (-1)) s.begun := rfl
  rw [hrun, run_lift_bind]
  cases (pipeline id text s.begun).1 with
  | ok u => rfl
  | error e => rfl

/-- The job of an analysis ends with its outcome and with the result so far. -/
theorem analyze_records (ε : Type) {outcome : Except AnalysisError Unit} {s' : Session}
    (hrun : pipeline id text s.begun = (outcome, s')) (h : s'.service.Awaits id) :
    ∃ v context, (analyze id text : Act ε Unit) s = (.ok (), { s' with context, service := v }) ∧
      v.Records id (endOf outcome) s'.draft := by
  rw [analyze_eq, hrun]
  obtain ⟨v, hsettle, hrecords⟩ :=
    settle_records ε (s := { s' with context := .unlimited }) h rfl outcome
  have hdetached : detached (settle id outcome : Act ε Unit) s' =
      (.ok (), { s' with service := v }) := by
    rw [detached_eq, hsettle]
  rw [bind_of_ok hdetached]
  exact ⟨_, s'.context, rfl, hrecords.congr rfl⟩

theorem fetch_of_find?
    {m : MemoryStore} {e : JobEntry} (hstore : s.service.registry.store = .memory m)
    (hfind : m.table.find? id = some e) :
    (detached ((fetch id).refusing .store) : Act ServiceError Job) s = (.ok e.job, s) := by
  have hfetch : fetch id { s with context := .unlimited } =
      (.ok e.job, { s with context := .unlimited }) := by
    have hget : s.service.registry.store.get true id = .ok e.job := by
      simp [hstore, Store.get, Store.require, MemoryStore.get, hfind, bind, Except.bind]
    unfold fetch
    rw [bind_of_ok (permitted_eq _), run_look_bind]
    simp only [Allowance.poll_unlimited, Option.isSome_some, Option.getD_some, hget]
    rfl
  rw [detached_eq, refusing_of_ok hfetch]

theorem fetch_of_records
    {status : Status} {result : Option JobResult} (h : s.service.Records id status result) :
    ∃ job, (detached ((fetch id).refusing .store) : Act ServiceError Job) s = (.ok job, s) ∧
      job.status = status ∧ job.result = result := by
  obtain ⟨m, e, hstore, hfind, hstatus, hresult⟩ := h
  exact ⟨e.job, fetch_of_find? hstore hfind, hstatus, hresult⟩

theorem create_cases
    {m : MemoryStore} (hstore : s.service.registry.store = .memory m)
    (hsound : s.service.breakage = none)
    (hfresh : m.table.find? (Identifier.nth (s.service.registry.drawn + 1)) = none) :
    (s.context.poll = none ∧ create s = (.error .cancelled, s)) ∨
      ∃ job context v, s.context.poll = some context ∧ v.Awaits job.id ∧
        create s = (.ok job, { s with context, service := v }) := by
  unfold create
  rw [call_eq _ _ hsound]
  cases hpoll : s.context.poll with
  | none => exact .inl ⟨rfl, rfl⟩
  | some context =>
      let id := Identifier.nth (s.service.registry.drawn + 1)
      let job := Job.new id s.service.registry.now
      let m' : MemoryStore := { m with table := m.table ++ [⟨job, []⟩] }
      let r : Registry :=
        { s.service.registry with store := .memory m', drawn := s.service.registry.drawn + 1 }
      have hcreate : s.service.registry.create true = (.ok job, r) := by
        rw [Registry.create, if_pos rfl]
        dsimp only [Registry.draw]
        rw [Registry.call, hstore]
        rfl
      refine .inr ⟨job, context, { s.service with registry := r }, rfl, ?_, ?_⟩
      · exact ⟨hsound, m', ⟨job, []⟩, rfl, JobTable.find?_append_of_fresh hfresh rfl, rfl, rfl⟩
      · simp only [Option.isSome_some, Option.getD_some, hcreate]

/-- The steps of a check up to the verdict. -/
def weigh (text : Text) : Act AnalysisError (Verdict × Text) := do
  let job ← create.refusing fun e => .service (.during "create job" e)
  modify Session.begun
  deliberate job.id text

theorem verdict_text_ne_nil (w : Verdict) : w.text ≠ [] := by
  cases w <;> decide

theorem wordOf_ne_nil_iff {answer : Except AnalysisError (Verdict × Text)} :
    wordOf answer ≠ [] ↔ ∃ w, answer = .ok w := by
  cases answer with
  | ok w => simp [wordOf, verdict_text_ne_nil]
  | error e => simp [wordOf]

theorem weigh_eq {s₁ : Session} {first : Job} (hcreate : create s = (.ok first, s₁)) (text : Text) :
    weigh text s = deliberate first.id text s₁.begun :=
  bind_of_ok (refusing_of_ok hcreate _) _

theorem checkText_of_refused {e : StoreError} (hcreate : create s = (.error e, s)) (text : Text) :
    checkText text s = (.error (.during "create job" e), s) :=
  bind_of_error (refusing_of_error hcreate _) _

end Act

theorem Task.verdictOf_eq {job : Job} {result : Option JobResult} (h : job.result = result) :
    verdictOf job = (result.getD {}).verdict := by
  rw [verdictOf, h]
  cases result with
  | none => rfl
  | some r => rfl

/-- How a job stands after a deliberation that came to the answer and left the session. -/
structure Job.Ends (job : Job) (answer : Except AnalysisError (Verdict × Text)) (s : Session) :
    Prop where
  ended : job.status = .completed ∨ job.status = .failed
  completed_iff : job.status = .completed ↔
    (∃ w, answer = .ok w) ∧ s.context.isCancelled = false
  verdict : Task.verdictOf job = Act.wordOf answer

namespace Job.Ends

variable {job : Job} {answer : Except AnalysisError (Verdict × Text)} {s : Session}

theorem verdict_mem_of_completed (h : job.Ends answer s) (hstatus : job.status = .completed) :
    Task.verdictOf job ∈ [Verdict.safe, .violated, .inconclusive].map Verdict.text := by
  obtain ⟨⟨w, rfl⟩, -⟩ := h.completed_iff.mp hstatus
  rw [h.verdict]
  cases hword : w.1 <;> simp [Act.wordOf, hword]

theorem verdict_iff_of_failed (h : job.Ends answer s) (hstatus : job.status = .failed) :
    Task.verdictOf job ≠ [] ↔ (∃ w, answer = .ok w) ∧ s.context.isCancelled = true := by
  have hnot : ¬((∃ w, answer = .ok w) ∧ s.context.isCancelled = false) := by
    rw [← h.completed_iff, hstatus]
    decide
  rw [h.verdict, Act.wordOf_ne_nil_iff]
  constructor
  · intro hanswer
    refine ⟨hanswer, ?_⟩
    rw [← Bool.not_eq_false]
    exact fun hgoes => hnot ⟨hanswer, hgoes⟩
  · exact fun hboth => hboth.1

theorem completed_iff_verdict (h : job.Ends answer s) (hgoes : s.context.isCancelled = false) :
    job.status = .completed ↔ Task.verdictOf job ≠ [] := by
  rw [h.completed_iff, h.verdict, Act.wordOf_ne_nil_iff]
  exact and_iff_left hgoes

end Job.Ends

namespace Act

variable {s s₁ : Session} {first : Job}

/-- A check that got its job ends it, with the verdict if there was one. -/
theorem checkText_ends
    (hcreate : create s = (.ok first, s₁)) (hawaits : s₁.service.Awaits first.id) (text : Text) :
    ∃ job s', checkText text s = (.ok job, s') ∧
      job.Ends (weigh text s).1 (weigh text s).2 := by
  obtain ⟨outcome, s₂, hpipeline, hwaits, hverdict, hends⟩ :=
    pipeline_ends (Session.undecided_begun hawaits) text
  obtain ⟨v, context, hanalyze, hrecords⟩ := analyze_records ServiceError hpipeline hwaits
  obtain ⟨job, hfetch, hstatus, hresult⟩ :=
    fetch_of_records (s := { s₂ with context, service := v }) hrecords
  rw [← weigh_eq hcreate] at hverdict hends
  refine ⟨job, { s₂ with context, service := v }, ?_, ?_, ?_, ?_⟩
  · unfold checkText
    rw [bind_of_ok (refusing_of_ok hcreate _), bind_of_ok hanalyze]
    exact hfetch
  · rw [hstatus]
    cases outcome with
    | ok u => exact .inl rfl
    | error e => exact .inr rfl
  · rw [hstatus]
    exact hends
  · rw [Task.verdictOf_eq hresult]
    exact hverdict

/-- Where nobody cancels the run, it is not cancelled when the verdict is there. -/
theorem weigh_unhurried
    (hcreate : create s = (.ok first, s₁)) (hawaits : s₁.service.Awaits first.id)
    (hfree : s₁.Unhurried) (text : Text) : (weigh text s).2.context.isCancelled = false := by
  have hkept := (steady_unhurried first.id).deliberate text s₁.begun
    ⟨Session.undecided_begun hawaits, hfree.begun⟩
  rw [weigh_eq hcreate, hkept.2.context]
  rfl

end Act

/-- A check whose caller is not cancelled from the start ends its job as completed or
as failed.  The job is completed exactly if there was a verdict and the run was not
cancelled by then; its verdict is one of the three.  A failed job carries a verdict
exactly if the run was cancelled between the verdict and its announcement, so that
it never does when the run cannot be cancelled. -/
theorem failed_job_verdict_iff
    (v : Service) (m : MemoryStore) (context : Allowance) (text : Text)
    (hstore : v.registry.store = .memory m) (hsound : v.breakage = none)
    (hfresh : m.table.find? (Identifier.nth (v.registry.drawn + 1)) = none) :
    (context.isCancelled = true ∧
      (v.perform context (Act.checkText text)).1 = .error (.during "create job" .cancelled)) ∨
    (context.isCancelled = false ∧ ∃ job v' answer s,
      v.perform context (Act.checkText text) = (.ok job, v') ∧
      Act.weigh text { service := v, context } = (answer, s) ∧
      (job.status = .completed ∨ job.status = .failed) ∧
      (job.status = .completed ↔ (∃ w, answer = .ok w) ∧ s.context.isCancelled = false) ∧
      (job.status = .completed →
        Task.verdictOf job ∈ [Verdict.safe, .violated, .inconclusive].map Verdict.text) ∧
      (job.status = .failed →
        (Task.verdictOf job ≠ [] ↔ (∃ w, answer = .ok w) ∧ s.context.isCancelled = true)) ∧
      (context = .unlimited → (∀ q, (v.oracle.consult q .unlimited).allowance = .unlimited) →
        (job.status = .completed ↔ Task.verdictOf job ≠ []))) := by
  have hcancelled : context.isCancelled = context.poll.isNone := rfl
  rw [hcancelled]
  let s₀ : Session := { service := v, context }
  rcases Act.create_cases (s := s₀) hstore hsound hfresh with
    ⟨hpoll, hcreate⟩ | ⟨first, context', v₁, hpoll, hawaits, hcreate⟩
  · have hpoll : context.poll = none := hpoll
    have hrun := Act.checkText_of_refused hcreate text
    exact .inl ⟨by rw [hpoll]; rfl, congrArg Prod.fst hrun⟩
  · have hpoll : context.poll = some context' := hpoll
    obtain ⟨job, s', hcheck, hends⟩ := Act.checkText_ends hcreate hawaits text
    have hperform : v.perform context (Act.checkText text) = (.ok job, s'.service) := by
      simp only [Service.perform]
      rw [hcheck]
    refine .inr ⟨by rw [hpoll]; rfl, job, s'.service, _, _, hperform, rfl, hends.ended,
      hends.completed_iff, hends.verdict_mem_of_completed, hends.verdict_iff_of_failed, ?_⟩
    intro hcontext hconsult
    have hfree : s₀.Unhurried := ⟨hcontext, hconsult⟩
    have hframe : Session.frame { s₀ with context := context', service := v₁ } = s₀.frame :=
      (Act.keeps_call _ _).eq hcreate
    exact hends.completed_iff_verdict
      (Act.weigh_unhurried hcreate hawaits (hfree.of_poll hpoll hframe) text)

/-! ## Cancellation between verdict and announcement -/

/-- An idle agent that nothing ever moves. -/
def restingText : Text :=
  Text.cat ["idle: 1\n", ",\n", "idle\n", "idle\n", "s0\n", ",\n", "s0\n"]

/-- A service with an empty store that searches the state space. -/
def restingService : Service where
  options := ⟨1, 1, false, "work", 1⟩
  oracle := .explicit 100
  registry := ⟨.memory {}, { now := 0 }, 0⟩

/-- How a check ends for a caller that may ask this often: the job's status, and the verdict
that it carries. -/
def Service.endsWith (v : Service) (polls : Nat) (text : Text) : Option (Status × Text) :=
  (v.perform ⟨some polls⟩ (Act.checkText text)).1.toOption.map fun job =>
    (job.status, Task.verdictOf job)

theorem failed_job_verdict_iff_resting :
    restingService.registry.store = .memory {} ∧ restingService.breakage = none ∧
      JobTable.find? [] (Identifier.nth (restingService.registry.drawn + 1)) = none ∧
      ∃ job v' w s,
        restingService.perform ⟨some 7⟩ (Act.checkText restingText) = (.ok job, v') ∧
        job.status = .failed ∧
        Act.weigh restingText { service := restingService, context := ⟨some 7⟩ } = (.ok w, s) ∧
        s.context.isCancelled = true := by
  refine ⟨rfl, rfl, rfl, ?_⟩
  have hends : restingService.endsWith 7 restingText = some (.failed, Verdict.safe.text) := by
    decide +kernel
  rcases failed_job_verdict_iff restingService {} ⟨some 7⟩ restingText rfl rfl rfl with
    ⟨hcancelled, -⟩ | ⟨-, job, v', answer, s, hrun, hweigh, -, -, -, hfailed, -⟩
  · cases hcancelled
  · rw [Service.endsWith, hrun] at hends
    obtain ⟨hstatus, hverdict⟩ := Prod.mk.inj (Option.some.inj hends)
    obtain ⟨⟨w, rfl⟩, hlate⟩ := (hfailed hstatus).mp <| by
      rw [hverdict]
      exact Act.verdict_text_ne_nil .safe
    exact ⟨job, v', w, s, hrun, hstatus, hweigh, hlate⟩

/-- The check is cancelled when only the announcement is left: the job fails and its result
says "safe".  One poll later it is completed, one poll earlier it has no verdict. -/
theorem failed_job_carries_verdict :
    restingService.endsWith 7 restingText = some (.failed, Verdict.safe.text) ∧
      restingService.endsWith 8 restingText = some (.completed, Verdict.safe.text) ∧
      restingService.endsWith 6 restingText = some (.failed, []) := by
  refine ⟨?_, ?_, ?_⟩
  · decide +kernel
  · decide +kernel
  · decide +kernel

end Population
