import Population.Proofs.Analysis.Scheduling
import Population.Proofs.Job.History

/-!
# The record of an analysis

What is reported about a job last is its last update, and ending the job leaves the
updates alone.  So a failed job shows the failure and a completed one the verdict,
and the findings of a completed job say of every hazard what the oracle answered.
-/

namespace Population

open Refusal (run_bind run_get_bind bind_of_ok exists_of_bind_eq_ok)

/-! ## The last update -/

namespace Store

variable {s s' : Store} {permitted : Bool} {now : Int} {id : Text}

/-- An update that is added is the last one of its job. -/
theorem append_last {kind : Kind} {message : Text} {u : Progress}
    (h : append permitted now id kind message s = (.ok u, s')) :
    ∃ e, s'.table.find? id = some e ∧ e.updates.getLast? = some u ∧ u.kind = kind ∧
      u.message = message := by
  have hrespond : s.respond ⟨permitted, .append now id kind message⟩ = (.ok (.update u), s') := by
    rw [respond, saying, h]
    rfl
  cases effect_of_respond (isReady_of_append h) hrespond with
  | @append _ _ e _ _ hopen =>
      obtain ⟨hfind, -⟩ := JobTable.of_open?_eq_ok hopen
      have hid := JobTable.id_of_find? hfind
      refine ⟨s.longerEntry now kind message e, ?_, ?_, rfl, rfl⟩
      · rw [table_withTable]
        exact JobTable.find?_replace hfind hid
      · cases s <;> simp [longerEntry, pushed, MemoryStore.push]

/-- Ending a job leaves its updates alone. -/
theorem finish_updates {m : MemoryStore} {status : Status} {result : Option JobResult}
    (h : finish permitted now id status result (memory m) = (.ok (), s')) {e : JobEntry}
    (hfind : m.table.find? id = some e) :
    ∃ e', s'.table.find? id = some e' ∧ e'.updates = e.updates := by
  have hrespond : (memory m).respond ⟨permitted, .finish now id status result⟩ =
      (.ok .done, s') := by
    rw [respond, saying, h]
    rfl
  cases effect_of_respond (s := memory m) trivial hrespond with
  | @finish _ _ e₀ _ _ _ hopen =>
      obtain ⟨hfind₀, -⟩ := JobTable.of_open?_eq_ok hopen
      have hsame : e₀ = e := Option.some.inj (hfind₀.symm.trans hfind)
      subst hsame
      have hid := JobTable.id_of_find? hfind
      refine ⟨(memory m).endedEntry now status result e₀, ?_, rfl⟩
      rw [table_withTable]
      exact JobTable.find?_replace hfind hid

end Store

/-- The last update of a job has this kind and says this. -/
def Service.Shows (v : Service) (id : Text) (kind : Kind) (message : Text) : Prop :=
  ∃ e u, v.registry.store.table.find? id = some e ∧ e.updates.getLast? = some u ∧
    u.kind = kind ∧ u.message = message

theorem Service.Shows.congr
    {v v' : Service} {id : Text} {kind : Kind} {message : Text} (h : v.Shows id kind message)
    (hstore : v'.registry.store = v.registry.store) : v'.Shows id kind message := by
  unfold Shows at h ⊢
  rwa [hstore]

theorem Registry.of_call_eq_ok
    {α : Type} {r r' : Registry} {transaction : Transaction Store α} {a : α}
    (h : r.call transaction = (.ok a, r')) : transaction r.store = (.ok a, r'.store) := by
  obtain ⟨hanswer, rfl⟩ := Prod.mk.inj h
  exact Prod.ext hanswer rfl

namespace Act

variable {ε ε' α : Type} {s s' : Session} {id : Text} {kind : Kind} {message : Text}

theorem of_refusing_eq_ok
    {act : Act ε α} {wrap : ε → ε'} {a : α} (h : act.refusing wrap s = (.ok a, s')) :
    act s = (.ok a, s') := by
  have hrun : act.refusing wrap s = ((act s).1.mapError wrap, (act s).2) := rfl
  rw [hrun] at h
  rcases hact : act s with ⟨e | b, s₁⟩
  · rw [hact] at h
    cases h
  · rw [hact] at h
    cases h
    rfl

/-- A call that is not refused is a call of the registry. -/
theorem exists_of_call_eq_ok
    {which : StoreCall} {f : Bool → Registry → Except StoreError α × Registry} {a : α}
    (h : call which f s = (.ok a, s')) :
    ∃ allowed r, f allowed r = (.ok a, s'.service.registry) := by
  obtain ⟨through, s₁, -, h⟩ := exists_of_bind_eq_ok h
  cases through with
  | false => cases h
  | true =>
      obtain ⟨allowed, s₂, -, h⟩ := exists_of_bind_eq_ok h
      rw [registry_eq] at h
      refine ⟨allowed, s₂.service.registry, ?_⟩
      obtain ⟨hanswer, rfl⟩ := Prod.mk.inj h
      exact Prod.ext hanswer rfl

theorem report_shows (h : report id kind message s = (.ok (), s')) :
    s'.service.Shows id kind message := by
  obtain ⟨u, s₁, hrecord, hannounce⟩ := exists_of_bind_eq_ok h
  obtain ⟨u', s₂, happend, hlog⟩ := exists_of_bind_eq_ok hrecord
  obtain ⟨allowed, r, hcall⟩ := exists_of_call_eq_ok (of_refusing_eq_ok happend)
  obtain ⟨e, hfind, hlast, hkind, hmessage⟩ := Store.append_last (Registry.of_call_eq_ok hcall)
  have hshown : s₂.service.Shows id kind message := ⟨e, u', hfind, hlast, hkind, hmessage⟩
  obtain ⟨v, heq, -, hregistry⟩ := announce_eq ServiceError id u s₁
  rw [hannounce] at heq
  obtain ⟨-, rfl⟩ := Prod.mk.inj heq
  cases hlog
  exact hshown.congr (congrArg Registry.store hregistry)

theorem tell_shows (h : tell id kind message s = (.ok (), s')) :
    s'.service.Shows id kind message :=
  report_shows (of_refusing_eq_ok h)

theorem conclude_shows {w : Verdict} (h : conclude id w message s = (.ok (), s')) :
    s'.service.Shows id w.kind message := by
  obtain ⟨_, s₁, -, htell⟩ := exists_of_bind_eq_ok h
  exact tell_shows htell

end Act

/-! ## Verdicts -/

theorem Verdict.text_injective {w w' : Verdict} (h : w.text = w'.text) : w = w' := by
  cases w <;> cases w' <;> first | rfl | exact absurd h (by decide)

/-- The words that announce a verdict. -/
def Encoding.announcement (enc : Encoding) (w : Verdict) : Text :=
  if enc.hazards.isEmpty then "no transition populates an unsafe state: protocol is safe"
  else "verdict: protocol is " ++ w.text

/-- The finding answers the question about a hazard. -/
structure Finding.Answers (f : Finding) (o : Oracle) (h : Hazard) (q : Query) : Prop where
  configuration : f.configuration = h.weights.text
  transitions : f.transitions = h.transitions
  status : ∃ allowance, (o.consult q allowance).reply.Says f.status

theorem Inquiry.answers_of_ofReply
    {h : Hazard} {i : Inquiry} {o : Oracle} {q : Query} {allowance : Allowance}
    (hi : ofReply h (o.consult q allowance).reply = some i) : i.finding.Answers o h q := by
  have hsays := Reply.says_of_ofReply hi
  unfold ofReply at hi
  split at hi
  · cases hi
    exact ⟨rfl, rfl, allowance, hsays⟩
  · split at hi
    · cases hi
      exact ⟨rfl, rfl, allowance, hsays⟩
    · cases hi
      exact ⟨rfl, rfl, allowance, hsays⟩
  · cases hi

namespace Act

section Results

variable {id text path : Text} {enc : Encoding} {slots : List Inquiry} {s s' : Session}

/-- Where every question is asked and comes back, every slot has the answer to its question. -/
theorem inquireAll_answers
    (hopen : s.service.isOpen = true)
    (hreplies : ∀ q allowance, (s.service.oracle.consult q allowance).reply ≠ ⟨none, none⟩)
    (hrun : inquireAll enc path s = (.ok slots, s')) :
    List.Forall₂ (fun h i => i.finding.Answers s.service.oracle h
      ⟨some enc.system, path, h.marking⟩) enc.hazards slots := by
  have hwritten := inquireAll_answered hopen hreplies hrun
  have hslots : List.Forall₂ (fun h i => i = {} ∨ i.finding.Answers s.service.oracle h
      ⟨some enc.system, path, h.marking⟩) enc.hazards slots :=
    inquireAll_forall₂ (fun _ => .inl rfl)
      (fun _ _ _ hreply => .inr (Inquiry.answers_of_ofReply hreply)) hrun
  rw [List.forall₂_iff_zip] at hslots ⊢
  refine ⟨hslots.1, fun {h i} hmem => ?_⟩
  rcases hslots.2 hmem with rfl | hanswers
  · exact absurd rfl (hwritten _ (List.of_mem_zip hmem).2)
  · exact hanswers

/-- What is announced last is the verdict, and the findings answer the questions. -/
theorem judge_announces (hfresh : s.findings = []) (hrun : judge id enc path s = (.ok (), s')) :
    ∃ result w, s'.draft = some result ∧ result.verdict = w.text ∧
      w = Verdict.fold (result.findings.map (·.status)) ∧
      s'.service.Shows id w.kind (enc.announcement w) ∧
      (s.service.isOpen = true →
        (∀ q allowance, (s.service.oracle.consult q allowance).reply ≠ ⟨none, none⟩) →
        List.Forall₂ (fun h f => f.Answers s.service.oracle h ⟨some enc.system, path, h.marking⟩)
          enc.hazards result.findings) := by
  obtain ⟨result, slots, hdraft, hresult, hverdict, hslots⟩ := judge_findings hfresh hrun
  have hannounced : ∃ w, (s'.draft.getD {}).verdict = w.text ∧
      s'.service.Shows id w.kind (enc.announcement w) := by
    rcases judge_cases hrun with
      ⟨hnone, hconclude⟩ | ⟨hsome, slots, s₁, s₂, s₃, -, -, -, hconclude⟩
    · obtain ⟨result, hdraft, -, hverdict⟩ := conclude_result hconclude
      have hwords : enc.announcement .safe =
          "no transition populates an unsafe state: protocol is safe" := by
        simp [Encoding.announcement, hnone]
      refine ⟨.safe, by rw [hdraft]; exact hverdict, ?_⟩
      rw [hwords]
      exact conclude_shows hconclude
    · obtain ⟨result, hdraft, -, hverdict⟩ := conclude_result hconclude
      refine ⟨_, by rw [hdraft]; exact hverdict, ?_⟩
      have hwords : ∀ w, enc.announcement w = "verdict: protocol is " ++ w.text := by
        simp [Encoding.announcement, hsome]
      rw [hwords]
      exact conclude_shows hconclude
  obtain ⟨w, hw, hshows⟩ := hannounced
  rw [hdraft] at hw
  have hfold : w = Verdict.fold (result.findings.map (·.status)) :=
    Verdict.text_injective (hw.symm.trans hverdict)
  refine ⟨result, w, hdraft, hw, hfold, hshows, ?_⟩
  intro hopen hreplies
  rw [hresult, List.forall₂_map_right_iff]
  rcases hslots with ⟨hnone, rfl⟩ | ⟨s₁, hslots⟩
  · rw [hnone]
    exact .nil
  · exact inquireAll_answers hopen hreplies hslots

/-- An analysis that comes to a verdict announces it last. -/
theorem pipeline_announces
    (hfresh : s.draft = none) (hrun : pipeline id text s = (.ok (), s')) :
    ∃ d enc result w, Description.read text = .ok d ∧
      encode d
        (compose d ⟨s.service.options.maxConcurrency, s.service.options.deduplicate⟩).transitions
        ⟨s.service.options.bound, "job_" ++ plain id⟩ = .ok enc ∧
      s'.draft = some result ∧ result.verdict = w.text ∧
      w = Verdict.fold (result.findings.map (·.status)) ∧
      s'.service.Shows id w.kind (enc.announcement w) ∧
      (s.service.isOpen = true →
        (∀ q allowance, (s.service.oracle.consult q allowance).reply ≠ ⟨none, none⟩) →
        List.Forall₂ (fun h f => f.Answers s.service.oracle h
          ⟨some enc.system, artifactPath s.service.options.workDir id, h.marking⟩)
          enc.hazards result.findings) := by
  obtain ⟨d, enc, s₁, hread, hencode, hledger, hjudge⟩ := pipeline_judges hrun
  obtain ⟨result, w, hdraft, hverdict, hfold, hshows, hanswers⟩ :=
    judge_announces (Session.findings_of_ledger hfresh hledger) hjudge
  have horacle : s₁.service.oracle = s.service.oracle :=
    congrArg (fun ledger => ledger.2.1) hledger
  have hopen : s₁.service.isOpen = s.service.isOpen :=
    congrArg (fun ledger => ledger.2.2.2) hledger
  rw [horacle, hopen] at hanswers
  exact ⟨d, enc, result, w, hread, hencode, hdraft, hverdict, hfold, hshows, hanswers⟩

end Results

/-! ## The end of the job -/

section Ending

variable {ε : Type} {id text : Text} {kind : Kind} {message : Text} {s : Session}

/-- Ending a job leaves its last update, also when the store refuses. -/
theorem finish_shows
    (h : s.service.Awaits id) (hshown : s.service.Shows id kind message) (status : Status)
    (result : Option JobResult) : (finish id status result s).2.service.Shows id kind message := by
  obtain ⟨hsound, m, -, hstore, -⟩ := h
  obtain ⟨e, u, hfind, hlast, hkind, hmessage⟩ := hshown
  rw [hstore] at hfind
  unfold finish
  rw [call_eq _ _ hsound]
  rw [Registry.finish, Registry.call, hstore]
  rcases hfinish : Store.finish s.context.poll.isSome s.service.registry.now id status result
      (.memory m) with ⟨err | _, store⟩
  · have hsame := Store.finish_cautious s.context.poll.isSome s.service.registry.now id status
      result (.memory m) err (congrArg Prod.fst hfinish)
    rw [hfinish] at hsame
    obtain rfl : store = .memory m := hsame
    exact ⟨e, u, hfind, hlast, hkind, hmessage⟩
  · obtain ⟨e', hfind', hupdates⟩ := Store.finish_updates hfinish hfind
    exact ⟨e', u, hfind', by rw [hupdates, hlast], hkind, hmessage⟩

theorem close_shows
    (h : s.service.Awaits id) (hshown : s.service.Shows id kind message) (status : Status) :
    ((close id status : Act ε Unit) s).2.service.Shows id kind message := by
  refine (finish_shows h hshown status s.draft).congr ?_
  unfold close
  rw [run_get_bind]
  unfold orElse
  rw [run_lift_bind]
  cases (finish id status s.draft s).1 with
  | ok u => rfl
  | error e => rfl

theorem complete_shows
    (h : s.service.Awaits id) (hshown : s.service.Shows id kind message) :
    ((complete id : Act ε Unit) s).2.service.Shows id kind message := by
  let counted : Session :=
    { s with service := { s.service with
        metrics := s.service.metrics.countJob ((s.draft.map (·.verdict)).getD []) } }
  have hrun : (complete id : Act ε Unit) s = close id .completed counted := rfl
  rw [hrun]
  exact close_shows (s := counted) (h.congr rfl rfl) (hshown.congr rfl) .completed

/-- A failed analysis reports its failure last. -/
theorem fail_shows
    (h : s.service.Awaits id) (hcontext : s.context = .unlimited) (e : AnalysisError) :
    ((fail id e : Act ε Unit) s).2.service.Shows id .error e.message := by
  let counted : Session :=
    { s with service := { s.service with metrics := s.service.metrics.countJob failedLabel } }
  have hrun : (fail id e : Act ε Unit) s =
      (((report id .error e.message).orElse fun e =>
        logLost "job update lost" id e.message) >>= fun _ => close id .failed) counted := rfl
  rw [hrun]
  rcases report_cases (s := counted) (h.congr rfl rfl) .error e.message with
    ⟨hpoll, -⟩ | ⟨context, v, -, hv, hreport⟩
  · have hpoll : s.context.poll = none := hpoll
    rw [hcontext] at hpoll
    cases hpoll
  · rw [bind_of_ok (orElse_of_ok hreport _)]
    exact close_shows hv (report_shows hreport) .failed

/-- What a job shows when its analysis is settled: the failure, or what it showed before. -/
theorem settle_shows
    (ε : Type) (h : s.service.Awaits id) (hcontext : s.context = .unlimited)
    {outcome : Except AnalysisError Unit}
    (hok : outcome = .ok () → s.service.Shows id kind message)
    (herror : ∀ e, outcome = .error e → kind = .error ∧ message = e.message) :
    ((settle id outcome : Act ε Unit) s).2.service.Shows id kind message := by
  cases outcome with
  | ok u => exact complete_shows h (hok rfl)
  | error e =>
      obtain ⟨rfl, rfl⟩ := herror e rfl
      exact fail_shows h hcontext e

theorem analyze_registry (ε : Type) {outcome : Except AnalysisError Unit} {s' : Session}
    (hrun : pipeline id text s.begun = (outcome, s')) :
    ((analyze id text : Act ε Unit) s).2.service.registry =
      ((settle id outcome : Act ε Unit) { s' with context := .unlimited }).2.service.registry := by
  rw [analyze_eq, hrun, run_bind, detached_eq]
  rcases (settle id outcome : Act ε Unit) { s' with context := .unlimited } with ⟨e | u, t⟩
  · rfl
  · rfl

end Ending

/-- The steps of a check up to the end of its analysis. -/
def carryOut (text : Text) : Act AnalysisError Unit := do
  let job ← create.refusing fun e => .service (.during "create job" e)
  modify Session.begun
  pipeline job.id text

theorem carryOut_eq {s s₁ : Session} {first : Job} (hcreate : create s = (.ok first, s₁))
    (text : Text) : carryOut text s = pipeline first.id text s₁.begun :=
  bind_of_ok (refusing_of_ok hcreate _) _

/-- A check that got its job stores it as it returns it: ended in the way of its analysis, and
with the last update that this calls for. -/
theorem checkText_stores
    {s s₁ : Session} {first : Job} (hcreate : create s = (.ok first, s₁))
    (hawaits : s₁.service.Awaits first.id) (text : Text) {kind : Kind} {message : Text}
    (hok : (carryOut text s).1 = .ok () →
      (carryOut text s).2.service.Shows first.id kind message)
    (herror : ∀ e, (carryOut text s).1 = .error e → kind = .error ∧ message = e.message) :
    ∃ e u s', checkText text s = (.ok e.job, s') ∧ e.job.id = first.id ∧
      s'.service.registry.store.table.find? e.job.id = some e ∧
      e.job.status = endOf (carryOut text s).1 ∧ e.job.result = (carryOut text s).2.draft ∧
      e.updates.getLast? = some u ∧ u.kind = kind ∧ u.message = message := by
  rw [carryOut_eq hcreate] at hok herror ⊢
  obtain ⟨outcome, s₂, hpipeline, hwaits, -⟩ := pipeline_ends (Session.undecided_begun hawaits) text
  rw [hpipeline] at hok herror ⊢
  obtain ⟨v, context, hanalyze, m, e, hstore, hfind, hstatus, hresult⟩ :=
    analyze_records ServiceError hpipeline hwaits
  have hshows : v.Shows first.id kind message := by
    have hsettled := settle_shows ServiceError (s := { s₂ with context := .unlimited }) hwaits rfl
      hok herror
    refine hsettled.congr ?_
    rw [← analyze_registry ServiceError hpipeline, hanalyze]
  obtain ⟨e', u, hfind', hlast, hkind, hmessage⟩ := hshows
  have hsame : e' = e := by
    rw [hstore] at hfind'
    exact Option.some.inj (hfind'.symm.trans hfind)
  subst hsame
  refine ⟨e', u, { s₂ with context, service := v }, ?_, JobTable.id_of_find? hfind, ?_, hstatus,
    hresult, hlast, hkind, hmessage⟩
  · unfold checkText
    rw [bind_of_ok (refusing_of_ok hcreate _), bind_of_ok hanalyze]
    exact fetch_of_find? hstore hfind
  · rw [JobTable.id_of_find? hfind]
    exact hfind'

end Act

/-! ## Consistent records -/

/-- A record of an analysis: how the job ended, what its last update says, and what its result
says about the hazards. -/
inductive JobEntry.Tells (e : JobEntry) (v : Service) (text : Text) :
    Except AnalysisError Unit → Prop
  | failed {failure : AnalysisError} {u : Progress} (hstatus : e.job.status = .failed)
      (hlast : e.updates.getLast? = some u) (hkind : u.kind = .error)
      (hmessage : u.message = failure.message) : Tells e v text (.error failure)
  | completed {d : Description} {enc : Encoding} {result : JobResult} {w : Verdict} {u : Progress}
      (hstatus : e.job.status = .completed)
      (hread : Description.read text = .ok d)
      (hencode : encode d (compose d ⟨v.options.maxConcurrency, v.options.deduplicate⟩).transitions
        ⟨v.options.bound, "job_" ++ Act.plain e.job.id⟩ = .ok enc)
      (hresult : e.job.result = some result) (hverdict : result.verdict = w.text)
      (hfold : w = Verdict.fold (result.findings.map (·.status)))
      (hlast : e.updates.getLast? = some u) (hkind : u.kind = w.kind)
      (hmessage : u.message = enc.announcement w)
      (hfindings : List.Forall₂ (fun h f => f.Answers v.oracle h
        ⟨some enc.system, Act.artifactPath v.options.workDir e.job.id, h.marking⟩)
        enc.hazards result.findings) : Tells e v text (.ok ())

namespace Act

section Check

variable {s s₁ : Session} {first : Job} {text : Text}

/-- The record of a check that failed. -/
theorem checkText_of_failed
    (hcreate : create s = (.ok first, s₁)) (hawaits : s₁.service.Awaits first.id)
    {failure : AnalysisError} (houtcome : (carryOut text s).1 = .error failure) :
    ∃ e s', checkText text s = (.ok e.job, s') ∧
      s'.service.registry.store.table.find? e.job.id = some e ∧
      e.Tells s.service text (.error failure) := by
  have hok : (carryOut text s).1 = .ok () →
      (carryOut text s).2.service.Shows first.id .error failure.message := by
    rw [houtcome]
    intro h
    cases h
  obtain ⟨e, u, s', hcheck, -, hfind, hstatus, -, hlast, hkind, hmessage⟩ :=
    checkText_stores hcreate hawaits text hok fun failure' h => by
      rw [houtcome] at h
      cases h
      exact ⟨rfl, rfl⟩
  rw [houtcome] at hstatus
  exact ⟨e, s', hcheck, hfind, .failed hstatus hlast hkind hmessage⟩

/-- The record of a check that came to a verdict. -/
theorem checkText_of_completed
    (hcreate : create s = (.ok first, s₁)) (hawaits : s₁.service.Awaits first.id)
    (hopen : s.service.isOpen = true) (hreplies : s.service.oracle.Replies)
    (houtcome : (carryOut text s).1 = .ok ()) :
    ∃ e s', checkText text s = (.ok e.job, s') ∧
      s'.service.registry.store.table.find? e.job.id = some e ∧
      e.Tells s.service text (.ok ()) := by
  have hframe : s₁.frame = s.frame := (keeps_call _ _).eq hcreate
  have horacle : s₁.begun.service.oracle = s.service.oracle :=
    congrArg (fun frame => frame.2.1) hframe
  have hoptions : s₁.begun.service.options = s.service.options :=
    congrArg (fun frame => frame.2.2.1) hframe
  have hstillOpen : s₁.begun.service.isOpen = s.service.isOpen :=
    congrArg (fun frame => frame.2.2.2) hframe
  have hrun : pipeline first.id text s₁.begun = (.ok (), (carryOut text s).2) := by
    rw [← carryOut_eq hcreate]
    exact Prod.ext houtcome rfl
  obtain ⟨d, enc, result, w, hread, hencode, hdraft, hverdict, hfold, hshows, hanswers⟩ :=
    pipeline_announces rfl hrun
  rw [horacle, hoptions, hstillOpen] at hanswers
  rw [hoptions] at hencode
  obtain ⟨e, u, s', hcheck, hid, hfind, hstatus, hresult, hlast, hkind, hmessage⟩ :=
    checkText_stores hcreate hawaits text (fun _ => hshows) fun failure h => by
      rw [houtcome] at h
      cases h
  rw [houtcome] at hstatus
  refine ⟨e, s', hcheck, hfind, .completed hstatus hread ?_ (hresult.trans hdraft) hverdict hfold
    hlast hkind hmessage ?_⟩
  · rw [hid]
    exact hencode
  · rw [hid]
    exact hanswers hopen hreplies

end Check

end Act

/-- A check that got its job ends it with a consistent record, wherever it is cancelled
and in whatever order its questions are asked: a failed job shows its failure last, a
completed one its verdict, with one finding for each hazard that says what the oracle
answered.  Where nobody cancels the run, the order makes no difference to the jobs. -/
theorem analysis_record
    (v : Service) (m : MemoryStore) (context : Allowance) (text : Text)
    (hstore : v.registry.store = .memory m) (hsound : v.breakage = none)
    (hfresh : m.table.find? (Identifier.nth (v.registry.drawn + 1)) = none)
    (hopen : v.isOpen = true) (hreplies : v.oracle.Replies)
    (hcontext : context.isCancelled = false) :
    ∃ e v', v.perform context (Act.checkText text) = (.ok e.job, v') ∧
      v'.registry.store.table.find? e.job.id = some e ∧
      e.Tells v text (Act.carryOut text { service := v, context }).1 ∧
      (context = .unlimited → (∀ q, (v.oracle.consult q .unlimited).allowance = .unlimited) →
        ∀ schedule, ∃ v'',
          Service.perform { v with schedule } context (Act.checkText text) = (.ok e.job, v'') ∧
          v''.registry = v'.registry) := by
  let s₀ : Session := { service := v, context }
  rcases Act.create_cases (s := s₀) hstore hsound hfresh with
    ⟨hpoll, -⟩ | ⟨first, context', v₁, hpoll, hawaits, hcreate⟩
  · have hpoll : context.poll = none := hpoll
    rw [Allowance.isCancelled, hpoll] at hcontext
    cases hcontext
  have hrecord : ∃ e s', Act.checkText text s₀ = (.ok e.job, s') ∧
      s'.service.registry.store.table.find? e.job.id = some e ∧
      e.Tells v text (Act.carryOut text s₀).1 := by
    cases houtcome : (Act.carryOut text s₀).1 with
    | error failure => exact Act.checkText_of_failed hcreate hawaits houtcome
    | ok u => exact Act.checkText_of_completed hcreate hawaits hopen hreplies houtcome
  obtain ⟨e, s', hcheck, hfind, htells⟩ := hrecord
  have hperform : v.perform context (Act.checkText text) = (.ok e.job, s'.service) := by
    simp only [Service.perform]
    rw [hcheck]
  refine ⟨e, s'.service, hperform, hfind, htells, ?_⟩
  intro hunlimited hconsult schedule
  have hframe : Session.frame { s₀ with context := context', service := v₁ } = s₀.frame :=
    (Act.keeps_call _ _).eq hcreate
  have hfree : s₀.Unhurried := ⟨hunlimited, hconsult⟩
  have horacle : v₁.oracle = v.oracle := congrArg (fun frame => frame.2.1) hframe
  have hcalm : Act.Calm first.id
      (Session.begun { s₀ with context := context', service := v₁ }) := by
    refine ⟨⟨Session.undecided_begun hawaits, (hfree.of_poll hpoll hframe).begun⟩, ?_⟩
    exact horacle ▸ hreplies
  let other : Session := { service := { v with schedule }, context }
  have hcore : s₀.core = other.core := rfl
  obtain ⟨hanswer, hleft⟩ := Act.checkText_any_order hcreate hcalm hcore text
  rw [hcheck] at hanswer hleft
  refine ⟨(Act.checkText text other).2.service, ?_, (congrArg Core.registry hleft).symm⟩
  exact Prod.ext hanswer.symm rfl

/-! ## Two questions in reverse -/

/-- An idle agent that is served turns active, which it must not, in either state of the
environment. -/
def twiceServedText : Text :=
  Text.cat
    ["idle: 1, active: 0\n", "go\n", "idle,sync,go,go,active\n", "idle\n", "idle\n", "s0, s1\n",
      "sync\n", "s0\n", "s0,sync,go,s1\n", "s1,sync,go,s0\n"]

/-- The last task first. -/
def Schedule.reversed : Schedule where
  order n := (List.range n).reverse
  perm _ := List.reverse_perm _
  outlives _ _ := false

/-- A service with an empty store, and an oracle that finds everything reachable after a while. -/
def alarmedService (schedule : Schedule) : Service where
  options := ⟨1, 1, true, "work", 1⟩
  oracle := .scripted "alarm" [] ⟨⟨some ⟨true, [], [], []⟩, none⟩, false, 5⟩
  registry := ⟨.memory {}, { now := 0 }, 0⟩
  schedule := schedule

theorem replies_alarmed (schedule : Schedule) : (alarmedService schedule).oracle.Replies := by
  intro q allowance h
  cases h

/-- How a check by a service ends: the job's status and the findings. -/
def Service.findingsOn (v : Service) (text : Text) : Option (Status × List Finding) :=
  (v.perform .unlimited (Act.checkText text)).1.toOption.map fun job =>
    (job.status, (job.result.map (·.findings)).getD [])

theorem analysis_record_reversed :
    (alarmedService .reversed).registry.store = .memory {} ∧
      (alarmedService .reversed).breakage = none ∧
      JobTable.find? [] (Identifier.nth 1) = none ∧
      (alarmedService .reversed).isOpen = true ∧ (alarmedService .reversed).oracle.Replies ∧
      Allowance.unlimited.isCancelled = false ∧
      ∃ (e : JobEntry) (v' v'' : Service),
        (alarmedService .reversed).perform .unlimited (Act.checkText twiceServedText) =
          (.ok e.job, v') ∧
        (alarmedService .inTurn).perform .unlimited (Act.checkText twiceServedText) =
          (.ok e.job, v'') ∧
        v''.registry = v'.registry ∧ e.job.status = .completed ∧
        (e.job.result.map (·.findings)).getD [] =
          [{ configuration := "{s0:1, idle:1}", transitions := ["t1"], status := .reachable },
            { configuration := "{s1:1, idle:1}", transitions := ["t2"], status := .reachable }] ∧
        e.Tells (alarmedService .reversed) twiceServedText
          (Act.carryOut twiceServedText
            { service := alarmedService .reversed, context := .unlimited }).1 := by
  have hends : (alarmedService .reversed).findingsOn twiceServedText = some (.completed,
      [{ configuration := "{s0:1, idle:1}", transitions := ["t1"], status := .reachable },
        { configuration := "{s1:1, idle:1}", transitions := ["t2"], status := .reachable }]) := by
    decide +kernel
  refine ⟨rfl, rfl, rfl, rfl, replies_alarmed _, rfl, ?_⟩
  obtain ⟨e, v', hperform, -, htells, horder⟩ :=
    analysis_record (alarmedService .reversed) {} .unlimited twiceServedText rfl rfl rfl rfl
      (replies_alarmed _) rfl
  obtain ⟨v'', hinTurn, hregistry⟩ := horder rfl (fun _ => rfl) .inTurn
  rw [Service.findingsOn, hperform] at hends
  obtain ⟨hstatus, hfindings⟩ := Prod.mk.inj (Option.some.inj hends)
  exact ⟨e, v', v'', hperform, hinTurn, hregistry, hstatus, hfindings, htells⟩

end Population
