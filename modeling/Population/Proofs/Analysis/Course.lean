import Population.Proofs.Analysis.Calls

/-!
# Operations step by step

Several callers may be at work on one service, and the steps of one come between
those of another.  What a caller still has to do is a course: a tree whose nodes are
the errands that reach the store and the event bus, with quiet steps between them,
and whose branches are the answers.  A routine of an operation is a course that does
what the operation does when nothing comes between its steps; routines are put
together as operations are, so the analysis of a job and its completion by hand have
routines with the steps of their own definitions.
-/

namespace Population

open Refusal (run_bind)

/-! ## Courses -/

/-- What callers share and observe of each other: the store and the event bus. -/
def Session.hub (s : Session) : Store × Option Bus :=
  (s.service.registry.store, s.service.bus)

/-- What a caller does with the store and the event bus. -/
inductive Errand where
  | start (id : Text)
  | report (id : Text) (kind : Kind) (message : Text)
  | finish (id : Text) (status : Status) (result : Option JobResult)

/-- An errand as an operation of the service. -/
def Errand.act : Errand → Act ServiceError Unit
  | start id => (Act.start id).refusing .store
  | report id kind message => Act.report id kind message
  | finish id status result => (Act.finish id status result).refusing .store

/-- A step that leaves the store and the event bus alone. -/
structure QuietStep where
  change : Session → Session
  keeps (s : Session) : (change s).hub = s.hub

/-- What a caller still has to do.  After a quiet step it goes on in the light of the
session before the step, after an errand in the light of the answer. -/
inductive Course (ε α : Type) where
  | done (outcome : Except ε α)
  | quiet (step : QuietStep) (next : Session → Course ε α)
  | errand (e : Errand) (next : Except ServiceError Unit → Course ε α)

namespace Course

variable {ε ε' α β : Type}

/-- Carries out the course when nobody else is at work. -/
def run : Course ε α → Act ε α
  | done outcome => fun s => (outcome, s)
  | quiet step next => fun s => (next s).run (step.change s)
  | errand e next => fun s => (next (e.act s).1).run (e.act s).2

theorem run_errand
    {e : Errand} {s s' : Session} {answer : Except ServiceError Unit} (h : e.act s = (answer, s'))
    (next : Except ServiceError Unit → Course ε α) :
    (errand e next).run s = (next answer).run s' := by
  simp only [run, h]

/-- One course after the other. -/
def andThen : Course ε α → (Except ε α → Course ε' β) → Course ε' β
  | done outcome, rest => rest outcome
  | quiet step next, rest => quiet step fun s => (next s).andThen rest
  | errand e next, rest => errand e fun answer => (next answer).andThen rest

theorem run_andThen (c : Course ε α) (rest : Except ε α → Course ε' β) (s : Session) :
    (c.andThen rest).run s = (rest (c.run s).1).run (c.run s).2 := by
  induction c generalizing s with
  | done outcome => rfl
  | quiet step next ih => exact ih s (step.change s)
  | errand e next ih => exact ih (e.act s).1 (e.act s).2

end Course

/-! ## Quiet operations -/

namespace Act

open Session (hub)

variable {ε : Type}

theorem keeps_hub_change {f : Service → Service}
    (hf : ∀ v, (f v).registry.store = v.registry.store ∧ (f v).bus = v.bus) :
    Keeps hub (change f : Act ε Unit) := by
  apply keeps_modify
  intro s
  obtain ⟨hstore, hbus⟩ := hf s.service
  simp only [hub, hstore, hbus]

theorem keeps_hub_measure (f : Metrics → Metrics) : Keeps hub (measure f : Act ε Unit) :=
  keeps_hub_change fun _ => ⟨rfl, rfl⟩

theorem keeps_hub_log (level : Level) (message : Text) (attributes : List (Text × LogValue)) :
    Keeps hub (log level message attributes : Act ε Unit) :=
  keeps_hub_change fun _ => ⟨rfl, rfl⟩

theorem keeps_hub_permitted : Keeps hub (permitted : Act ε Bool) := by
  intro s
  rw [permitted_eq]
  rfl

theorem keeps_hub_inquire (q : Query) (h : Hazard) : Keeps hub (inquire q h) := by
  refine (keeps_look _).bind fun o => keeps_get.bind fun s =>
    Keeps.bind (keeps_modify fun _ => rfl) fun _ =>
      Keeps.bind (keeps_hub_change fun _ => ⟨rfl, rfl⟩) fun _ =>
        (keeps_hub_measure _).bind fun _ => ?_
  split
  · exact keeps_pure _
  · exact (keeps_hub_measure _).bind fun _ => keeps_pure _

end Act

/-! ## Routines -/

theorem Act.refusing_refusing {ε ε' ε'' α : Type} (act : Act ε α) (wrap : ε → ε')
    (wrap' : ε' → ε'') :
    (act.refusing wrap).refusing wrap' = act.refusing fun e => wrap' (wrap e) := by
  funext s
  rcases hrun : act s with ⟨e | a, s'⟩
  · rw [refusing_of_error (refusing_of_error hrun wrap), refusing_of_error hrun]
  · rw [refusing_of_ok (refusing_of_ok hrun wrap), refusing_of_ok hrun]

theorem Act.refusing_orElse {ε ε' ε'' : Type} (act : Act ε Unit) (wrap : ε → ε')
    (handle : ε' → Act ε'' Unit) :
    (act.refusing wrap).orElse handle = act.orElse fun e => handle (wrap e) := by
  funext s
  unfold orElse
  rw [run_lift_bind, run_lift_bind]
  rcases hrun : act s with ⟨e | a, s'⟩
  · rw [refusing_of_error hrun]
  · rw [refusing_of_ok hrun]

/-- A course that does what the operation does when nothing comes between its steps. -/
structure Routine {ε α : Type} (act : Act ε α) where
  course : Course ε α
  run_course : course.run = act

namespace Routine

open Act (Keeps)

variable {ε ε' α β γ δ : Type} {act : Act ε α}

theorem run_eq (r : Routine act) (s : Session) : r.course.run s = act s :=
  congrFun r.run_course s

/-- The same operation, written in another way. -/
def congr {act' : Act ε α} (r : Routine act) (h : act = act') : Routine act' :=
  ⟨r.course, r.run_course.trans h⟩

protected def pure (a : α) : Routine (pure a : Act ε α) :=
  ⟨.done (.ok a), rfl⟩

protected def throw (e : ε) : Routine (throw e : Act ε α) :=
  ⟨.done (.error e), rfl⟩

/-- An operation that leaves the store and the event bus alone is one step. -/
def quiet (h : Keeps Session.hub act) : Routine act where
  course := .quiet ⟨fun s => (act s).2, h⟩ fun s => .done (act s).1
  run_course := rfl

def errand (e : Errand) : Routine e.act where
  course := .errand e .done
  run_course := rfl

protected def bind {f : α → Act ε β} (r : Routine act) (rf : ∀ a, Routine (f a)) :
    Routine (act >>= f) where
  course := r.course.andThen fun outcome =>
    match outcome with
    | .ok a => (rf a).course
    | .error e => .done (.error e)
  run_course := by
    funext s
    rw [Course.run_andThen, r.run_eq, run_bind]
    rcases act s with ⟨e | a, s'⟩
    · rfl
    · exact (rf a).run_eq s'

/-- The outcome of an operation, refused or not, decides how to go on. -/
def attempt {f : Except ε α → Act ε' β} (r : Routine act) (rf : ∀ x, Routine (f x)) :
    Routine ((ExceptT.lift act.run : Act ε' (Except ε α)) >>= f) where
  course := r.course.andThen fun outcome => (rf outcome).course
  run_course := by
    funext s
    rw [Course.run_andThen, r.run_eq, Act.run_lift_bind]
    exact (rf _).run_eq _

def orElse {act : Act ε Unit} {handle : ε → Act ε' Unit} (r : Routine act)
    (rh : ∀ e, Routine (handle e)) : Routine (act.orElse handle) :=
  r.attempt fun outcome => by
    match outcome with
    | .ok () => exact .pure ()
    | .error e => exact rh e

def refusing (r : Routine act) (wrap : ε → ε') : Routine (act.refusing wrap) where
  course := r.course.andThen fun outcome => .done (outcome.mapError wrap)
  run_course := by
    funext s
    rw [Course.run_andThen, r.run_eq]
    rfl

def detached (r : Routine act) : Routine (Act.detached act) where
  course := .quiet ⟨fun s => { s with context := .unlimited }, fun _ => rfl⟩ fun s =>
    r.course.andThen fun outcome =>
      .quiet ⟨fun s' => { s' with context := s.context }, fun _ => rfl⟩ fun _ => .done outcome
  run_course := by
    funext s
    have hrun := Course.run_andThen r.course
      (fun outcome => .quiet ⟨fun s' => { s' with context := s.context }, fun _ => rfl⟩
        fun _ => .done outcome)
      { s with context := .unlimited }
    rw [r.run_eq] at hrun
    rw [Act.detached_eq]
    exact hrun

/-! ### The steps of an analysis -/

def look (f : Service → α) : Routine (Act.look f : Act ε α) :=
  quiet (Act.keeps_look f)

def modify (f : Session → Session) (hf : ∀ s, (f s).hub = s.hub := by exact fun _ => rfl) :
    Routine (modify f : Act ε PUnit) :=
  quiet (Act.keeps_modify hf)

def change (f : Service → Service)
    (hf : ∀ v, (f v).registry.store = v.registry.store ∧ (f v).bus = v.bus :=
      by exact fun _ => ⟨rfl, rfl⟩) :
    Routine (Act.change f : Act ε Unit) :=
  quiet (Act.keeps_hub_change hf)

def revise (f : JobResult → JobResult) : Routine (Act.revise f) :=
  modify _

def measure (f : Metrics → Metrics) : Routine (Act.measure f : Act ε Unit) :=
  quiet (Act.keeps_hub_measure f)

def tell (id : Text) (kind : Kind) (message : Text) : Routine (Act.tell id kind message) :=
  (errand (.report id kind message)).refusing AnalysisError.service

def tellAll (id : Text) (kind : Kind) : (ms : List Text) → Routine (Act.tellAll id kind ms)
  | [] => .pure ()
  | m :: ms => (tell id kind m).bind fun _ => tellAll id kind ms

def readDescription (id text : Text) : Routine (Act.readDescription id text) := by
  unfold Act.readDescription
  match Description.read text with
  | .error e => exact .throw _
  | .ok d =>
    exact (revise _).bind fun _ => (tell _ _ _).bind fun _ => (tellAll _ _ _).bind fun _ => .pure d

def composeAll (id : Text) (d : Description) : Routine (Act.composeAll id d) :=
  (look _).bind fun _ => (measure _).bind fun _ => (revise _).bind fun _ =>
    (tellAll _ _ _).bind fun _ => (tell _ _ _).bind fun _ => .pure _

def encodeAll (id : Text) (d : Description) (c : Composition) : Routine (Act.encodeAll id d c) :=
  (look _).bind fun opts => by
    match encode d c.transitions ⟨opts.bound, "job_" ++ Act.plain id⟩ with
    | .error e => exact .throw _
    | .ok enc =>
      exact (measure _).bind fun _ => (revise _).bind fun _ => (tell _ _ _).bind fun _ => .pure enc

def writeArtifact (id : Text) (enc : Encoding) : Routine (Act.writeArtifact id enc) :=
  (look _).bind fun opts => (look _).bind fun w => by
    match w.makeFolder opts.workDir with
    | .error e => exact .throw _
    | .ok w =>
      refine (change _).bind fun _ => ?_
      match w.write (Act.artifactPath opts.workDir id) enc.system.text with
      | .error e => exact .throw _
      | .ok w =>
        exact (change _).bind fun _ => (revise _).bind fun _ => (tell _ _ _).bind fun _ => .pure _

def inquireBy {ask : Hazard → Act AnalysisError (Option Inquiry)} (r : ∀ h, Routine (ask h))
    (outlives : Nat → Nat → Bool) (hazards : List Hazard) :
    (tasks failed : List Nat) → (slots : List Inquiry) →
      Routine (Act.inquireBy outlives ask hazards tasks failed slots)
  | [], _, slots => .pure slots
  | i :: rest, failed, slots => by
    unfold Act.inquireBy
    match failed.all (outlives i) with
    | false => exact inquireBy r outlives hazards rest failed slots
    | true =>
      match hazards[i]? with
      | none => exact inquireBy r outlives hazards rest failed slots
      | some h =>
        refine (r h).bind fun answer => ?_
        match answer with
        | none => exact inquireBy r outlives hazards rest (i :: failed) slots
        | some a => exact inquireBy r outlives hazards rest failed (slots.set i a)

def inquireAll (enc : Encoding) (path : Text) : Routine (Act.inquireAll enc path) :=
  (look _).bind fun _ => (look _).bind fun _ =>
    inquireBy (fun h => quiet (Act.keeps_hub_inquire _ h)) _ _ _ _ _

def reportInquiries (id : Text) :
    (answered : List (Hazard × Inquiry)) → Routine (Act.reportInquiries id answered)
  | [] => .pure ()
  | (_, _) :: rest =>
    (tellAll _ _ _).bind fun _ => (tell _ _ _).bind fun _ => (revise _).bind fun _ =>
      reportInquiries id rest

def conclude (id : Text) (v : Verdict) (message : Text) : Routine (Act.conclude id v message) :=
  (revise _).bind fun _ => tell _ _ _

def judge (id : Text) (enc : Encoding) (path : Text) : Routine (Act.judge id enc path) := by
  unfold Act.judge
  match enc.hazards.isEmpty with
  | true => exact conclude _ _ _
  | false =>
    refine (inquireAll enc path).bind fun _ =>
      (quiet Act.keeps_hub_permitted).bind fun allowed => ?_
    match allowed with
    | false => exact .throw _
    | true => exact (reportInquiries _ _).bind fun _ => conclude _ _ _

def pipeline (id text : Text) : Routine (Act.pipeline id text) :=
  (((errand (.start id)).refusing AnalysisError.service).congr (Act.refusing_refusing _ _ _)).bind
    fun _ => (readDescription id text).bind fun d => (composeAll id d).bind fun c =>
      (encodeAll id d c).bind fun enc => (writeArtifact id enc).bind fun path => judge id enc path

/-! ### The end of a job -/

def logLost (message id error : Text) : Routine (Act.logLost message id error : Act ε Unit) :=
  quiet (Act.keeps_hub_log _ _ _)

def close (id : Text) (status : Status) : Routine (Act.close id status : Act ε Unit) :=
  (quiet Act.keeps_get).bind fun s =>
    ((errand (.finish id status s.draft)).orElse fun e =>
      logLost "job could not be finished" id e.message).congr (Act.refusing_orElse _ _ _)

def fail (id : Text) (e : AnalysisError) : Routine (Act.fail id e : Act ε Unit) :=
  (measure _).bind fun _ =>
    ((errand (.report id .error e.message)).orElse fun _ => logLost _ _ _).bind fun _ =>
      close id .failed

def complete (id : Text) : Routine (Act.complete id : Act ε Unit) :=
  (quiet Act.keeps_get).bind fun _ => (measure _).bind fun _ => close id .completed

def analyze (id text : Text) : Routine (Act.analyze id text : Act ε Unit) :=
  (change _).bind fun _ => (modify _).bind fun _ => (pipeline id text).attempt fun outcome => by
    refine (detached ?_).bind fun _ => change _
    match outcome with
    | .ok () => exact complete id
    | .error e => exact fail id e

def completeByHand (id : Text) : Routine (Act.completeByHand id) :=
  (errand (.report id .success completedManually)).bind fun _ => errand (.finish id .completed none)

end Routine

end Population
