import Population.Proofs.Analysis.Outcome
import Population.Proofs.Analysis.Verdict

/-!
# The order of the questions

The course of an analysis depends on the core of the session alone: not on the log,
the metrics, the event bus, the number of running analyses or the order in which
questions are asked.  In a run that nobody cancels each question gets its answer
whatever was asked before, and moves the clock.  Two such questions commute, so the
slots and the clock are the same for every schedule, and with them the whole job.
-/

namespace Population

open Refusal (run_bind run_get_bind run_modify_bind bind_of_ok)

/-! ## The core of a session -/

/-- What the course of an analysis depends on. -/
structure Core where
  registry : Registry
  breakage : Option Breakage
  failure : StoreError
  workspace : Workspace
  options : AnalysisOptions
  oracle : Oracle
  isOpen : Bool
  context : Allowance
  draft : Option JobResult

/-- The core of a session. -/
def Session.core (s : Session) : Core where
  registry := s.service.registry
  breakage := s.service.breakage
  failure := s.service.failure
  workspace := s.service.workspace
  options := s.service.options
  oracle := s.service.oracle
  isOpen := s.service.isOpen
  context := s.context
  draft := s.draft

namespace Act

variable {ε ε' α β : Type}

/-- Sessions with the same core get the same answer and keep the same core. -/
def Respects (act : Act ε α) : Prop :=
  ∀ s s' : Session, s.core = s'.core → (act s).1 = (act s').1 ∧ (act s).2.core = (act s').2.core

/-- The operation always answers this and leaves the core alone. -/
def Quiet (act : Act ε α) (a : α) : Prop :=
  ∀ s, (act s).1 = .ok a ∧ (act s).2.core = s.core

theorem Quiet.respects {act : Act ε α} {a : α} (h : Quiet act a) : Respects act := by
  intro s s' hcore
  rw [(h s).1, (h s').1, (h s).2, (h s').2]
  exact ⟨rfl, hcore⟩

section Respects

theorem respects_pure (a : α) : Respects (pure a : Act ε α) :=
  fun _ _ hcore => ⟨rfl, hcore⟩

theorem respects_throw (e : ε) : Respects (throw e : Act ε α) :=
  fun _ _ hcore => ⟨rfl, hcore⟩

theorem Respects.bind {act : Act ε α} {f : α → Act ε β} (hact : Respects act)
    (hf : ∀ a, Respects (f a)) : Respects (act >>= f) := by
  intro s s' hcore
  obtain ⟨hanswer, hnext⟩ := hact s s' hcore
  rw [run_bind, run_bind, ← hanswer]
  cases (act s).1 with
  | error e => exact ⟨rfl, hnext⟩
  | ok a => exact hf a _ _ hnext

theorem respects_look {f : Service → α}
    (hf : ∀ s s' : Session, s.core = s'.core → f s.service = f s'.service) :
    Respects (look f : Act ε α) :=
  fun s s' hcore => ⟨congrArg Except.ok (hf s s' hcore), hcore⟩

theorem respects_modify {f : Session → Session}
    (hf : ∀ s s' : Session, s.core = s'.core → (f s).core = (f s').core) :
    Respects (modify f : Act ε Unit) :=
  fun s s' hcore => ⟨rfl, hf s s' hcore⟩

theorem Respects.refusing {act : Act ε α} (h : Respects act) (wrap : ε → ε') :
    Respects (act.refusing wrap) :=
  fun s s' hcore => ⟨congrArg (Except.mapError wrap) (h s s' hcore).1, (h s s' hcore).2⟩

theorem Respects.orElse {act : Act ε Unit} {handle : ε → Act ε' Unit} (hact : Respects act)
    (hhandle : ∀ e, Respects (handle e)) : Respects (act.orElse handle) := by
  intro s s' hcore
  obtain ⟨hanswer, hnext⟩ := hact s s' hcore
  unfold Act.orElse
  rw [run_lift_bind, run_lift_bind, ← hanswer]
  cases (act s).1 with
  | ok u => exact ⟨rfl, hnext⟩
  | error e => exact hhandle e _ _ hnext

theorem Respects.detached {act : Act ε α} (h : Respects act) : Respects (detached act) := by
  intro s s' hcore
  have hfree : Session.core { s with context := .unlimited } =
      Session.core { s' with context := .unlimited } :=
    congrArg (fun c : Core => { c with context := .unlimited }) hcore
  have hcontext : s.context = s'.context := congrArg Core.context hcore
  obtain ⟨hanswer, hnext⟩ := h _ _ hfree
  rw [detached_eq, detached_eq, hcontext]
  exact ⟨hanswer, congrArg (fun c : Core => { c with context := s'.context }) hnext⟩

end Respects

/-! ## Calls and reports -/

theorem quiet_log (level : Level) (message : Text) (attributes : List (Text × LogValue)) :
    Quiet (log level message attributes : Act ε Unit) () :=
  fun _ => ⟨rfl, rfl⟩

theorem quiet_measure (f : Metrics → Metrics) : Quiet (measure f : Act ε Unit) () :=
  fun _ => ⟨rfl, rfl⟩

theorem quiet_countRunning (by' : Int) : Quiet (countRunning by' : Act ε Unit) () :=
  fun _ => ⟨rfl, rfl⟩

theorem quiet_announce (id : Text) (u : Progress) : Quiet (announce id u : Act ε Unit) () := by
  intro s
  unfold announce
  rw [run_look_bind]
  cases s.service.bus with
  | none => exact ⟨rfl, rfl⟩
  | some b =>
      dsimp only
      cases b.publish ⟨id, u⟩ with
      | ok b' => exact ⟨rfl, rfl⟩
      | error e => exact ⟨rfl, rfl⟩

theorem respects_permitted : Respects (permitted : Act ε Bool) := by
  intro s s' hcore
  rw [permitted_eq, permitted_eq]
  exact ⟨congrArg (fun c : Core => Except.ok c.context.poll.isSome) hcore,
    congrArg (fun c : Core => { c with context := c.context.poll.getD c.context }) hcore⟩

theorem respects_registry (f : Registry → Except StoreError α × Registry) :
    Respects (registry f) := by
  intro s s' hcore
  rw [registry_eq, registry_eq]
  exact ⟨congrArg (fun c : Core => (f c.registry).1) hcore,
    congrArg (fun c : Core => { c with registry := (f c.registry).2 }) hcore⟩

theorem respects_getsThrough (which : StoreCall) : Respects (getsThrough which : Act ε Bool) := by
  refine (respects_look fun s s' hcore => congrArg Core.breakage hcore).bind fun b => ?_
  cases b with
  | none => exact respects_pure _
  | some b =>
      dsimp only
      split
      · exact respects_pure _
      · split
        · exact respects_pure _
        · let worn : Breakage := { b with left := b.left - 1 }
          refine Respects.bind (respects_modify fun s s' hcore => ?_) fun _ => respects_pure _
          exact congrArg (fun c : Core => { c with breakage := some worn }) hcore

theorem respects_call
    (which : StoreCall) (f : Bool → Registry → Except StoreError α × Registry) :
    Respects (call which f) := by
  refine (respects_getsThrough which).bind fun through => ?_
  split
  · exact respects_permitted.bind fun allowed => respects_registry (f allowed)
  · exact (respects_look fun s s' hcore => congrArg Core.failure hcore).bind respects_throw

theorem respects_report (id : Text) (kind : Kind) (message : Text) :
    Respects (report id kind message) := by
  have hrecord : Respects (record id kind message) :=
    ((respects_call _ _).refusing _).bind fun _ => (quiet_log _ _ _).respects.bind fun _ =>
      respects_pure _
  exact hrecord.bind fun u => (quiet_announce id u).respects

theorem respects_tell (id : Text) (kind : Kind) (message : Text) :
    Respects (tell id kind message) :=
  (respects_report id kind message).refusing _

theorem respects_tellAll (id : Text) (kind : Kind) (messages : List Text) :
    Respects (tellAll id kind messages) := by
  induction messages with
  | nil => exact respects_pure _
  | cons m rest ih => exact (respects_tell id kind m).bind fun _ => ih

theorem respects_revise (f : JobResult → JobResult) : Respects (revise f) :=
  respects_modify fun _ _ hcore =>
    congrArg (fun c : Core => { c with draft := some (f (c.draft.getD {})) }) hcore

theorem respects_options : Respects (look (·.options) : Act ε AnalysisOptions) :=
  respects_look fun _ _ hcore => congrArg Core.options hcore

/-! ## Steps of an analysis -/

theorem respects_readDescription (id text : Text) : Respects (readDescription id text) := by
  unfold readDescription
  split
  · exact respects_throw _
  · exact (respects_revise _).bind fun _ => (respects_tell _ _ _).bind fun _ =>
      (respects_tellAll _ _ _).bind fun _ => respects_pure _

theorem respects_composeAll (id : Text) (d : Description) : Respects (composeAll id d) :=
  respects_options.bind fun _ => (quiet_measure _).respects.bind fun _ =>
    (respects_revise _).bind fun _ => (respects_tellAll _ _ _).bind fun _ =>
      (respects_tell _ _ _).bind fun _ => respects_pure _

theorem respects_encodeAll (id : Text) (d : Description) (c : Composition) :
    Respects (encodeAll id d c) := by
  refine respects_options.bind fun opts => ?_
  split
  · exact respects_throw _
  · exact (quiet_measure _).respects.bind fun _ => (respects_revise _).bind fun _ =>
      (respects_tell _ _ _).bind fun _ => respects_pure _

theorem respects_writeArtifact (id : Text) (enc : Encoding) : Respects (writeArtifact id enc) := by
  have hplace (w : Workspace) :
      Respects (change fun v => { v with workspace := w } : Act AnalysisError Unit) :=
    respects_modify fun _ _ hcore => congrArg (fun c : Core => { c with workspace := w }) hcore
  refine respects_options.bind fun opts =>
    (respects_look fun _ _ hcore => congrArg Core.workspace hcore).bind fun w => ?_
  split
  · exact respects_throw _
  · refine (hplace _).bind fun _ => ?_
    split
    · exact respects_throw _
    · exact (hplace _).bind fun _ => (respects_revise _).bind fun _ =>
        (respects_tell _ _ _).bind fun _ => respects_pure _

theorem respects_reportInquiries (id : Text) (answered : List (Hazard × Inquiry)) :
    Respects (reportInquiries id answered) := by
  induction answered with
  | nil => exact respects_pure _
  | cons first rest ih =>
      exact (respects_tellAll _ _ _).bind fun _ => (respects_tell _ _ _).bind fun _ =>
        (respects_revise _).bind fun _ => ih

theorem respects_conclude (id : Text) (w : Verdict) (message : Text) :
    Respects (conclude id w message) :=
  (respects_revise _).bind fun _ => respects_tell _ _ _

theorem respects_close (id : Text) (status : Status) : Respects (close id status : Act ε Unit) := by
  intro s s' hcore
  have hdraft : s.draft = s'.draft := congrArg Core.draft hcore
  have hend : Respects ((finish id status s'.draft).orElse fun e =>
      (logLost "job could not be finished" id e.message : Act ε Unit)) :=
    (respects_call _ _).orElse fun _ => (quiet_log _ _ _).respects
  unfold close
  rw [run_get_bind, run_get_bind, hdraft]
  exact hend s s' hcore

theorem respects_complete (id : Text) : Respects (complete id : Act ε Unit) := by
  intro s s' hcore
  have hdraft : s.draft = s'.draft := congrArg Core.draft hcore
  have hend (label : Text) : Respects
      ((measure (·.countJob label) : Act ε Unit) >>= fun _ => close id .completed) :=
    (quiet_measure _).respects.bind fun _ => respects_close id .completed
  unfold complete
  rw [run_get_bind, run_get_bind, hdraft]
  exact hend _ s s' hcore

theorem respects_fail (id : Text) (e : AnalysisError) : Respects (fail id e : Act ε Unit) := by
  unfold fail
  refine (quiet_measure _).respects.bind fun _ => ?_
  exact ((respects_report _ _ _).orElse fun _ => (quiet_log _ _ _).respects).bind fun _ =>
    respects_close id .failed

theorem respects_settle (id : Text) (outcome : Except AnalysisError Unit) :
    Respects (settle id outcome : Act ε Unit) := by
  cases outcome with
  | ok u => exact respects_complete id
  | error e => exact respects_fail id e

theorem respects_fetch (id : Text) : Respects (fetch id) := by
  refine respects_permitted.bind fun allowed => ?_
  refine Respects.bind (respects_look fun _ _ hcore => congrArg Core.registry hcore) fun r => ?_
  cases r.store.get allowed id with
  | ok job => exact respects_pure job
  | error e => exact respects_throw e

end Act

/-! ## The clock -/

namespace VirtualClock

theorem dropWhile_dropWhile_of_imp
    {α : Type} {p q : α → Bool} (h : ∀ a, p a = true → q a = true) (l : List α) :
    (l.dropWhile p).dropWhile q = l.dropWhile q := by
  induction l with
  | nil => rfl
  | cons a rest ih =>
      cases hp : p a with
      | true => rw [List.dropWhile_cons, if_pos hp, ih, List.dropWhile_cons, if_pos (h a hp)]
      | false => rw [List.dropWhile_cons, if_neg (by simp [hp])]

theorem advance_of_pos (c : VirtualClock) {d : Int} (hd : 0 < d) :
    (c.advance d).1 =
      { c with now := c.now + d, timers := c.timers.dropWhile (isDue (c.now + d)) } := by
  rw [advance, set, if_neg (by omega)]

/-- Moving the clock twice moves it by both durations. -/
theorem advance_advance (c : VirtualClock) {d d' : Int} (hd : 0 ≤ d) (hd' : 0 ≤ d') :
    ((c.advance d).1.advance d').1 = (c.advance (d + d')).1 := by
  rcases Int.lt_or_eq_of_le hd with hd | rfl
  · rcases Int.lt_or_eq_of_le hd' with hd' | rfl
    · have hdue : ∀ t, isDue (c.now + d) t = true → isDue (c.now + (d + d')) t = true := by
        simp only [isDue, decide_eq_true_eq]
        intro t ht
        omega
      rw [advance_of_pos _ hd', advance_of_pos _ hd, advance_of_pos _ (Int.add_pos hd hd')]
      simp only [Int.add_assoc, dropWhile_dropWhile_of_imp hdue]
    · simp [advance, set]
  · simp [advance, set]

end VirtualClock

theorem Registry.advance_comm (r : Registry) (n n' : Nat) :
    (r.advance n).advance n' = (r.advance n').advance n := by
  have hsum := VirtualClock.advance_advance r.clock (Int.natCast_nonneg n) (Int.natCast_nonneg n')
  have hsum' := VirtualClock.advance_advance r.clock (Int.natCast_nonneg n') (Int.natCast_nonneg n)
  rw [Int.add_comm, ← hsum] at hsum'
  exact congrArg (fun clock => { r with clock }) hsum'.symm

/-! ## Questions -/

theorem Service.tasks_perm {v v' : Service} (h : v.isOpen = v'.isOpen) (n : Nat) :
    (v.tasks n).Perm (v'.tasks n) := by
  unfold Service.tasks
  rw [h]
  split
  · exact (v.schedule.perm n).trans (v'.schedule.perm n).symm
  · exact .nil

/-- The oracle replies to every question. -/
def Oracle.Replies (o : Oracle) : Prop :=
  ∀ q allowance, (o.consult q allowance).reply ≠ ⟨none, none⟩

namespace Act

section Questions

variable {o : Oracle} {enc : Encoding} {path : Text} {s s' : Session}

/-- What a question about a hazard brings where nobody cancels it. -/
def replyTo (o : Oracle) (q : Query) (h : Hazard) : Inquiry :=
  (Inquiry.ofReply h (o.consult q .unlimited).reply).getD {}

/-- A question that nobody cancels is answered and moves the clock. -/
theorem inquire_unhurried (h : s.Unhurried) (hreplies : s.service.oracle.Replies) (q : Query)
    (hazard : Hazard) :
    (inquire q hazard s).1 = .ok (some (replyTo s.service.oracle q hazard)) ∧
      (inquire q hazard s).2.core = { s.core with
        registry := s.core.registry.advance (s.service.oracle.consult q .unlimited).takes } := by
  obtain ⟨hcontext, hconsult⟩ := h
  unfold inquire
  rw [run_look_bind, run_get_bind, hcontext, run_modify_bind]
  cases hreply : Inquiry.ofReply hazard (s.service.oracle.consult q .unlimited).reply with
  | none => exact absurd (Reply.eq_of_ofReply_eq_none hreply) (hreplies q _)
  | some i =>
      have hi : replyTo s.service.oracle q hazard = i := by
        rw [replyTo, hreply]
        rfl
      rw [hi, run_change_bind, measure, run_change_bind]
      refine ⟨rfl, ?_⟩
      have hkept : (s.service.oracle.consult q .unlimited).allowance = s.context := by
        rw [hconsult, hcontext]
      exact congrArg (fun context => { s.core with
        registry := s.core.registry.advance (s.service.oracle.consult q .unlimited).takes
        context }) hkept

/-- One task: the answer is written to its slot, and the clock moves. -/
def task (o : Oracle) (question : Hazard → Query) (hazards : List Hazard)
    (x : List Inquiry × Registry) (i : Nat) : List Inquiry × Registry :=
  match hazards[i]? with
  | none => x
  | some h => (x.1.set i (replyTo o (question h) h),
      x.2.advance (o.consult (question h) .unlimited).takes)

/-- Two tasks commute: they write to different slots, or they are the same. -/
theorem task_comm (o : Oracle) (question : Hazard → Query) (hazards : List Hazard)
    (x : List Inquiry × Registry) (i j : Nat) :
    task o question hazards (task o question hazards x i) j =
      task o question hazards (task o question hazards x j) i := by
  by_cases hne : i = j
  · rw [hne]
  simp only [task]
  cases hazards[i]? with
  | none => rfl
  | some h =>
      cases hazards[j]? with
      | none => rfl
      | some h' =>
          dsimp only
          rw [List.set_comm _ _ hne, Registry.advance_comm]

/-- Questions that nobody cancels are carried out one after the other. -/
theorem inquireBy_unhurried
    (h : s.Unhurried) (hreplies : s.service.oracle.Replies) (outlives : Nat → Nat → Bool)
    (question : Hazard → Query) (hazards : List Hazard) (tasks : List Nat)
    (slots : List Inquiry) :
    (inquireBy outlives (fun h => inquire (question h) h) hazards tasks [] slots s).1 =
        .ok (tasks.foldl (task s.service.oracle question hazards) (slots, s.service.registry)).1 ∧
      (inquireBy outlives (fun h => inquire (question h) h) hazards tasks [] slots s).2.core =
        { s.core with registry :=
          (tasks.foldl (task s.service.oracle question hazards)
            (slots, s.service.registry)).2 } := by
  induction tasks generalizing slots s with
  | nil => exact ⟨rfl, rfl⟩
  | cons i rest ih =>
      rw [inquireBy, List.foldl_cons, task, List.all_nil, Bool.not_true, if_neg Bool.false_ne_true]
      cases hazards[i]? with
      | none => exact ih h hreplies slots
      | some hazard =>
          obtain ⟨hanswer, hcore⟩ := inquire_unhurried h hreplies (question hazard) hazard
          rcases hrun : inquire (question hazard) hazard s with ⟨answer, s₁⟩
          rw [hrun] at hanswer hcore
          obtain rfl : answer = _ := hanswer
          have horacle : s₁.service.oracle = s.service.oracle := congrArg Core.oracle hcore
          have hregistry : s₁.service.registry = _ := congrArg Core.registry hcore
          have hnext : s₁.Unhurried := by
            refine ⟨(congrArg Core.context hcore).trans h.context, ?_⟩
            rw [horacle]
            exact h.oracle
          dsimp only
          rw [bind_of_ok hrun]
          have hrest := ih hnext (by rwa [horacle])
            (slots.set i (replyTo s.service.oracle (question hazard) hazard))
          rw [horacle, hregistry, hcore] at hrest
          exact hrest

/-- The order of the questions does not matter to a run that nobody cancels. -/
theorem inquireAll_any_order
    (h : s.Unhurried) (hreplies : s.service.oracle.Replies) (hcore : s.core = s'.core) :
    (inquireAll enc path s).1 = (inquireAll enc path s').1 ∧
      (inquireAll enc path s).2.core = (inquireAll enc path s').2.core := by
  have horacle : s.service.oracle = s'.service.oracle := congrArg Core.oracle hcore
  have hregistry : s.service.registry = s'.service.registry := congrArg Core.registry hcore
  have hopen : s.service.isOpen = s'.service.isOpen := congrArg Core.isOpen hcore
  have hnext : s'.Unhurried := by
    refine ⟨(congrArg Core.context hcore).symm.trans h.context, ?_⟩
    rw [← horacle]
    exact h.oracle
  let question (hazard : Hazard) : Query := ⟨some enc.system, path, hazard.marking⟩
  obtain ⟨hslots, hleft⟩ := inquireBy_unhurried h hreplies s.service.schedule.outlives
    question enc.hazards (s.service.tasks enc.hazards.length) (enc.hazards.map fun _ => {})
  obtain ⟨hslots', hleft'⟩ := inquireBy_unhurried hnext (by rwa [← horacle])
    s'.service.schedule.outlives question enc.hazards (s'.service.tasks enc.hazards.length)
    (enc.hazards.map fun _ => {})
  have hfold := (Service.tasks_perm hopen enc.hazards.length).foldl_eq'
    (f := task s.service.oracle question enc.hazards)
    (fun i _ j _ x => task_comm _ _ _ x i j) (enc.hazards.map fun _ => {}, s.service.registry)
  rw [← horacle, ← hregistry, ← hfold, ← hcore] at hleft'
  rw [← horacle, ← hregistry, ← hfold] at hslots'
  exact ⟨hslots.trans hslots'.symm, hleft.trans hleft'.symm⟩

end Questions

/-! ## Whole analyses -/

/-- As `Respects`, for sessions with a property. -/
def RespectsIf (P : Session → Prop) (act : Act ε α) : Prop :=
  ∀ s s' : Session, P s → s.core = s'.core →
    (act s).1 = (act s').1 ∧ (act s).2.core = (act s').2.core

section RespectsIf

variable {P Q : Session → Prop}

theorem Respects.of_property {act : Act ε α} (h : Respects act) : RespectsIf P act :=
  fun s s' _ hcore => h s s' hcore

theorem RespectsIf.bind {act : Act ε α} {f : α → Act ε β} (hact : RespectsIf P act)
    (hkept : ∀ s, P s → Q (act s).2) (hf : ∀ a, RespectsIf Q (f a)) : RespectsIf P (act >>= f) := by
  intro s s' hs hcore
  obtain ⟨hanswer, hnext⟩ := hact s s' hs hcore
  rw [run_bind, run_bind, ← hanswer]
  cases (act s).1 with
  | error e => exact ⟨rfl, hnext⟩
  | ok a => exact hf a _ _ (hkept s hs) hnext

end RespectsIf

/-- The job waits for its verdict, nobody cancels the run, and the oracle always replies. -/
def Calm (id : Text) (s : Session) : Prop :=
  (s.Undecided id ∧ s.Unhurried) ∧ s.service.oracle.Replies

theorem steady_calm (id : Text) : Steady id (Calm id) := by
  have hframe {s s' : Session} (h : s'.frame = s.frame) (hs : s.service.oracle.Replies) :
      s'.service.oracle.Replies := by
    have horacle : s'.service.oracle = s.service.oracle :=
      congrArg (fun frame => frame.2.1) h
    rwa [horacle]
  have hsteady := steady_unhurried id
  constructor
  case start => exact fun s hs => ⟨hsteady.start s hs.1, hframe (keeps_call _ _ s) hs.2⟩
  case tell =>
    exact fun kind message s hs =>
      ⟨hsteady.tell kind message s hs.1, hframe (keeps_tell _ _ _ s) hs.2⟩
  case permitted => exact fun s hs => ⟨hsteady.permitted s hs.1, hframe (keeps_permitted s) hs.2⟩
  case revise => exact fun f hf s hs => ⟨hsteady.revise f hf s hs.1, hs.2⟩
  case change =>
    intro f hf s hs
    refine ⟨hsteady.change f hf s hs.1, ?_⟩
    have horacle : ((change f : Act AnalysisError Unit) s).2.service.oracle = s.service.oracle :=
      (hf s.service).2.2
    rw [horacle]
    exact hs.2
  case consult => exact fun q s hs => ⟨hsteady.consult q s hs.1, hs.2⟩

theorem respectsIf_ponder (id : Text) (enc : Encoding) (path : Text) :
    RespectsIf (Calm id) (ponder id enc path) := by
  unfold ponder
  split
  · exact (respects_pure _).of_property
  · refine RespectsIf.bind (fun s s' hs hcore => inquireAll_any_order hs.1.2 hs.2 hcore)
      ((steady_calm id).inquireAll enc path) fun inquiries => Respects.of_property ?_
    refine respects_permitted.bind fun allowed => ?_
    split
    · exact (respects_throw _).bind fun _ => (respects_reportInquiries _ _).bind fun _ =>
        respects_pure _
    · exact (respects_reportInquiries _ _).bind fun _ => respects_pure _

theorem respectsIf_pipeline (id text : Text) : RespectsIf (Calm id) (pipeline id text) := by
  have hP := steady_calm id
  have hdeliberate : RespectsIf (Calm id) (deliberate id text) :=
    ((respects_call _ _).refusing _).of_property.bind hP.start.refusing fun _ =>
      (respects_readDescription id text).of_property.bind (hP.readDescription text) fun d =>
        (respects_composeAll id d).of_property.bind (hP.composeAll d) fun c =>
          (respects_encodeAll id d c).of_property.bind (hP.encodeAll d c) fun enc =>
            (respects_writeArtifact id enc).of_property.bind (hP.writeArtifact enc) fun path =>
              respectsIf_ponder id enc path
  rw [pipeline_eq]
  exact hdeliberate.bind (hP.deliberate text) fun v => (respects_conclude id v.1 v.2).of_property

/-- An analysis that nobody cancels takes the same course whatever the order of its
questions. -/
theorem respectsIf_analyze (id text : Text) :
    RespectsIf (fun s => Calm id s.begun) (analyze id text : Act ε Unit) := by
  intro s s' hs hcore
  have hbegun : s.begun.core = s'.begun.core :=
    congrArg (fun c : Core => { c with draft := none }) hcore
  obtain ⟨houtcome, hnext⟩ := respectsIf_pipeline id text _ _ hs hbegun
  have hrest (outcome : Except AnalysisError Unit) :
      Respects (detached (settle id outcome : Act ε Unit) >>= fun _ => countRunning (-1)) :=
    (respects_settle id outcome).detached.bind fun _ => (quiet_countRunning _).respects
  rw [analyze_eq, analyze_eq, ← houtcome]
  exact hrest _ _ _ hnext

theorem checkText_any_order
    {s s₁ s' : Session} {first : Job} (hcreate : create s = (.ok first, s₁))
    (hcalm : Calm first.id s₁.begun) (hcore : s.core = s'.core) (text : Text) :
    (checkText text s).1 = (checkText text s').1 ∧
      (checkText text s).2.core = (checkText text s').2.core := by
  have hcreated : Respects (create.refusing (.during "create job") : Act ServiceError Job) :=
    (respects_call _ _).refusing _
  have hrest : RespectsIf (fun s => Calm first.id s.begun)
      ((analyze first.id text : Act ServiceError Unit) >>= fun _ =>
        detached ((fetch first.id).refusing .store)) :=
    (respectsIf_analyze first.id text).bind (Q := fun _ => True) (fun _ _ => trivial) fun _ =>
      ((respects_fetch first.id).refusing _).detached.of_property
  have hrun := refusing_of_ok hcreate (ServiceError.during "create job")
  obtain ⟨hanswer, hnext⟩ := hcreated s s' hcore
  rcases hrun' : create.refusing (ServiceError.during "create job") s' with ⟨answer, s₁'⟩
  rw [hrun, hrun'] at hanswer hnext
  obtain rfl : Except.ok first = answer := hanswer
  unfold checkText
  rw [bind_of_ok hrun, bind_of_ok hrun']
  exact hrest s₁ s₁' hcalm hnext

end Act

end Population
