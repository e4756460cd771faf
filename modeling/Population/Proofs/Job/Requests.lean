import Population.Job.Store
import Population.Proofs.Job.Table
import Population.Proofs.Refusal

/-!
# Requests to a store

A request is answered or refused, and a refused one leaves the store as it is.  The two
kinds of store differ in how they date entries, number updates and keep results, and in
nothing else: `serve` is the one description of a call that both follow, and `Effect`
lists what a call that is not refused does.
-/

namespace Population.Store

open Refusal

/-! ## Requests and answers -/

/-- What can be asked of a store, with the readings of its clock.  How a client
names the update after which it wants to read on is left open. -/
inductive Call (σ : Type) where
  | create (now : Int) (id : Text)
  | start (now : Int) (id : Text)
  | append (now : Int) (id : Text) (kind : Kind) (message : Text)
  | finish (now : Int) (id : Text) (status : Status) (result : Option JobResult)
  | get (id : Text)
  | updates (id : Text) (since : σ)
  | evict (cutoff : Int)

/-- The job that a call is about. -/
def Call.subject? {σ : Type} : Call σ → Option Text
  | create _ id | start _ id | append _ id _ _ | finish _ id _ _ | get id | updates id _ => some id
  | evict _ => none

/-- A call by a caller who may go on or not. -/
structure Request where
  permitted : Bool
  call : Call Int

/-- What a store says when it does not refuse. -/
inductive Answer where
  | done
  | job (j : Job)
  | update (u : Progress)
  | updates (us : List Progress)
  | evicted (n : Nat)

/-- Puts an answer into words. -/
def saying {α : Type} (say : α → Answer) (x : Except StoreError α × Store) :
    Except StoreError Answer × Store :=
  (x.1.map say, x.2)

/-- The answer to a request and the store that it leaves. -/
def respond (s : Store) : Request → Except StoreError Answer × Store
  | ⟨permitted, .create now id⟩ => saying .job (create permitted now id s)
  | ⟨permitted, .start now id⟩ => saying (fun _ => .done) (start permitted now id s)
  | ⟨permitted, .append now id kind message⟩ =>
    saying .update (append permitted now id kind message s)
  | ⟨permitted, .finish now id status result⟩ =>
    saying (fun _ => .done) (finish permitted now id status result s)
  | ⟨permitted, .get id⟩ => saying .job (s.get permitted id, s)
  | ⟨permitted, .updates id since⟩ => saying .updates (s.updates permitted id since, s)
  | ⟨permitted, .evict cutoff⟩ => saying .evicted (evict permitted cutoff s)

/-! ## One description of both stores -/

/-- The jobs of a store. -/
def table : Store → JobTable
  | memory m => m.table
  | durable d => d.table

/-- The store with other jobs. -/
def withTable (s : Store) (t : JobTable) : Store :=
  match s with
  | memory m => memory { m with table := t }
  | durable d => durable { d with table := t }

/-- How a reading of the clock is stored. -/
def dated (s : Store) (now : Int) : Int :=
  match s with
  | memory _ => now
  | durable _ => DurableStore.toMillis now

/-- The number of the next update of a job with these updates. -/
def nextSeq (s : Store) (us : List Progress) : Int :=
  match s with
  | memory m => m.seq + 1
  | durable _ => DurableStore.lastSeq us + 1

/-- The store when a number has been given out. -/
def counted : Store → Store
  | memory m => memory { m with seq := m.seq + 1 }
  | durable d => durable d

/-- The updates of a job with one update more. -/
def pushed (s : Store) (us : List Progress) (u : Progress) : List Progress :=
  match s with
  | memory m => MemoryStore.push m.maxUpdates us u
  | durable _ => us ++ [u]

/-- How a result is stored. -/
def filed (s : Store) (r : JobResult) : JobResult :=
  match s with
  | memory _ => r
  | durable _ => r.repaired

/-- Whether a job is removed. -/
def expires (s : Store) (cutoff : Int) (j : Job) : Bool :=
  match s with
  | memory _ => MemoryStore.isExpired cutoff j
  | durable _ => DurableStore.isExpired cutoff j

/-- The update that is added at a time. -/
def newUpdate (s : Store) (us : List Progress) (now : Int) (kind : Kind) (message : Text) :
    Progress where
  seq := s.nextSeq us
  kind := kind
  message := message
  time := s.dated now

/-- The entry of a job that was just created. -/
def newEntry (s : Store) (now : Int) (id : Text) : JobEntry :=
  ⟨.new id (s.dated now), []⟩

/-- The entry of a job that is marked as running. -/
def startedEntry (s : Store) (now : Int) (e : JobEntry) : JobEntry :=
  { e with job := { e.job with status := .running, updated := s.dated now } }

/-- The entry of a job with one update more. -/
def longerEntry (s : Store) (now : Int) (kind : Kind) (message : Text) (e : JobEntry) :
    JobEntry where
  job := { e.job with updated := s.dated now }
  updates := s.pushed e.updates (s.newUpdate e.updates now kind message)

/-- The entry of a job that is ended. -/
def endedEntry (s : Store) (now : Int) (status : Status) (result : Option JobResult)
    (e : JobEntry) : JobEntry :=
  { e with
    job := { e.job with
      status
      updated := s.dated now
      finished := some (s.dated now)
      result := (result.map s.filed).or e.job.result } }

/-- What a store answers that nothing keeps from answering. -/
def serve (s : Store) : Call Int → Except StoreError (Answer × Store)
  | .create now id =>
    .ok (.job (s.newEntry now id).job, s.withTable (s.table ++ [s.newEntry now id]))
  | .start now id =>
    (s.table.open? id).map fun e => (.done, s.withTable (s.table.replace (s.startedEntry now e)))
  | .append now id kind message =>
    (s.table.open? id).map fun e =>
      (.update (s.newUpdate e.updates now kind message),
        s.counted.withTable (s.table.replace (s.longerEntry now kind message e)))
  | .finish now id status result =>
    if status.isTerminal then
      (s.table.open? id).map fun e =>
        (.done, s.withTable (s.table.replace (s.endedEntry now status result e)))
    else .error (.notTerminal id status)
  | .get id =>
    match s.table.find? id with
    | none => .error (.notFound id)
    | some e => .ok (.job e.job, s)
  | .updates id since =>
    match s.table.find? id with
    | none => .error (.notFound id)
    | some e => .ok (.updates (JobTable.updatesAfter e since), s)
  | .evict cutoff =>
    .ok (.evicted (s.table.countP fun e => s.expires cutoff e.job),
      s.withTable (s.table.filter fun e => !s.expires cutoff e.job))

/-- Nothing keeps the store from answering. -/
def IsReady : Store → Prop
  | memory _ => True
  | durable d => d.isOpen = true ∧ d.readOnly = false

/-! ## Refusals -/

section Refusals

variable {α : Type}

theorem either_cautious
    {onMemory : Transaction MemoryStore α} {onDurable : Transaction DurableStore α}
    (hmemory : Cautious onMemory) (hdurable : Cautious onDurable) :
    Cautious (either onMemory onDurable) := by
  intro s e h
  cases s with
  | memory m => exact congrArg memory (hmemory m e h)
  | durable d => exact congrArg durable (hdurable d e h)

theorem required_cautious (permitted : Bool) {act : Transaction Store α} (h : Cautious act) :
    Cautious (do require permitted; act : Transaction Store α) :=
  (reads_lift _).bind_cautious fun _ => h

theorem reads_entry (id : Text) : Reads (MemoryStore.entry id) :=
  reads_get.bind fun _ => reads_lift _

theorem reads_begin (during id : Text) : Reads (DurableStore.begin during id) :=
  reads_get.bind fun _ => (reads_lift _).bind fun _ => (reads_lift _).bind fun _ =>
    (reads_lift _).bind fun _ => reads_pure _

theorem reads_requireBoth (during : Text) : Reads (DurableStore.requireBoth during) :=
  reads_get.bind fun _ => (reads_lift _).bind fun _ => reads_lift _

/-- A refused creation leaves the store as it is. -/
theorem create_cautious (permitted : Bool) (now : Int) (id : Text) :
    Cautious (create permitted now id) := by
  refine required_cautious permitted (either_cautious ?_ ?_)
  · exact ((answers_modify _).bind fun _ => answers_pure _).cautious
  · refine (reads_requireBoth _).bind_cautious fun _ => Answers.cautious ?_
    exact (answers_modify _).bind fun _ => answers_pure _

theorem start_cautious (permitted : Bool) (now : Int) (id : Text) :
    Cautious (start permitted now id) := by
  refine required_cautious permitted (either_cautious ?_ ?_)
  · exact (reads_entry id).bind_cautious fun _ => (answers_modify _).cautious
  · exact (reads_begin _ id).bind_cautious fun _ => (answers_modify _).cautious

theorem append_cautious (permitted : Bool) (now : Int) (id : Text) (kind : Kind) (message : Text) :
    Cautious (append permitted now id kind message) := by
  refine required_cautious permitted (either_cautious ?_ ?_)
  · refine (reads_entry id).bind_cautious fun _ => Answers.cautious ?_
    exact (answers_modifyGet _).bind fun _ => answers_get.bind fun _ =>
      (answers_modify _).bind fun _ => answers_pure _
  · refine (reads_begin _ id).bind_cautious fun _ => Answers.cautious ?_
    exact (answers_modify _).bind fun _ => answers_pure _

theorem finish_cautious
    (permitted : Bool) (now : Int) (id : Text) (status : Status) (result : Option JobResult) :
    Cautious (finish permitted now id status result) := by
  refine either_cautious ?_ ?_
  · refine (reads_lift _).bind_cautious fun _ => ?_
    unfold MemoryStore.finish
    split
    · exact (reads_entry id).bind_cautious fun _ => (answers_modify _).cautious
    · exact (reads_throw _).cautious
  · refine (reads_lift _).bind_cautious fun _ => ?_
    unfold DurableStore.finish
    split
    · exact (reads_begin _ id).bind_cautious fun _ => (answers_modify _).cautious
    · exact (reads_throw _).cautious

theorem evict_cautious (permitted : Bool) (cutoff : Int) : Cautious (evict permitted cutoff) := by
  refine required_cautious permitted (either_cautious ?_ ?_)
  · exact (answers_modifyGet _).cautious
  · exact (reads_requireBoth _).bind_cautious fun _ => (answers_modifyGet _).cautious

theorem of_saying_eq_error
    {say : α → Answer} {x : Except StoreError α × Store} {e : StoreError}
    (h : (saying say x).1 = .error e) : x.1 = .error e := by
  rcases x with ⟨err | a, s⟩
  · exact congrArg _ (Except.error.inj h)
  · cases h

theorem exists_of_saying_eq_ok
    {say : α → Answer} {x : Except StoreError α × Store} {a : Answer} {s : Store}
    (h : saying say x = (.ok a, s)) : ∃ b, x = (.ok b, s) := by
  rcases x with ⟨err | b, s₁⟩
  · cases h
  · cases h
    exact ⟨b, rfl⟩

/-- A refused request leaves the store as it is. -/
theorem respond_of_error {s : Store} {r : Request} {e : StoreError}
    (h : (s.respond r).1 = .error e) : s.respond r = (.error e, s) := by
  refine Prod.ext h ?_
  obtain ⟨permitted, c⟩ := r
  cases c with
  | create now id => exact create_cautious permitted now id s e (of_saying_eq_error h)
  | start now id => exact start_cautious permitted now id s e (of_saying_eq_error h)
  | append now id kind message =>
      exact append_cautious permitted now id kind message s e (of_saying_eq_error h)
  | finish now id status result =>
      exact finish_cautious permitted now id status result s e (of_saying_eq_error h)
  | get id => rfl
  | updates id since => rfl
  | evict cutoff => exact evict_cautious permitted cutoff s e (of_saying_eq_error h)

/-- A caller who may not go on is refused. -/
theorem exists_respond_eq_error (s : Store) (c : Call Int) :
    ∃ e, s.respond ⟨false, c⟩ = (.error e, s) := by
  suffices h : ∃ e, (s.respond ⟨false, c⟩).1 = .error e from h.imp fun _ => respond_of_error
  cases c with
  | finish now id status result =>
      cases s with
      | memory m => exact ⟨.cancelled, rfl⟩
      | durable d =>
          rw [respond, finish]
          unfold DurableStore.finish
          cases status.isTerminal with
          | true => exact ⟨.cancelled, rfl⟩
          | false => exact ⟨.notTerminal id status, rfl⟩
  | _ => exact ⟨.cancelled, rfl⟩

end Refusals

/-! ## Stores that answer -/

/-- Where it is answered, a request leads to this store. -/
def settle (s : Store) : Except StoreError (Answer × Store) → Except StoreError Answer × Store
  | .error e => (.error e, s)
  | .ok (a, s') => (.ok a, s')

section Answers

variable {α : Type}

theorem run_require_bind (f : Unit → Transaction Store α) (s : Store) :
    ((liftM (require true) : Transaction Store Unit) >>= f) s = f () s :=
  rfl

theorem either_memory
    (onMemory : Transaction MemoryStore α) (onDurable : Transaction DurableStore α)
    (m : MemoryStore) :
    either onMemory onDurable (memory m) = ((onMemory m).1, memory (onMemory m).2) :=
  rfl

theorem either_durable
    (onMemory : Transaction MemoryStore α) (onDurable : Transaction DurableStore α)
    (d : DurableStore) :
    either onMemory onDurable (durable d) = ((onDurable d).1, durable (onDurable d).2) :=
  rfl

theorem run_entry_bind (f : JobEntry → Transaction MemoryStore α) (m : MemoryStore) (id : Text) :
    (MemoryStore.entry id >>= f) m =
      match m.table.open? id with
      | .error e => (.error e, m)
      | .ok e => f e m := by
  rw [run_bind, MemoryStore.entry, run_get_bind, run_lift]
  cases m.table.open? id <;> rfl

theorem respond_memory (m : MemoryStore) (c : Call Int) :
    (memory m).respond ⟨true, c⟩ = (memory m).settle ((memory m).serve c) := by
  cases c with
  | create now id => rfl
  | start now id =>
      rw [respond, start, run_require_bind, either_memory, MemoryStore.start, run_entry_bind,
        serve, table]
      cases m.table.open? id <;> rfl
  | append now id kind message =>
      rw [respond, append, run_require_bind, either_memory, MemoryStore.append, run_entry_bind,
        serve, table]
      cases m.table.open? id <;> rfl
  | finish now id status result =>
      rw [respond, finish, either_memory, run_lift_bind, require, if_pos rfl, serve, table]
      unfold MemoryStore.finish
      cases status.isTerminal with
      | false => rfl
      | true =>
          rw [if_pos rfl, if_pos rfl, run_entry_bind]
          cases m.table.open? id with
          | error e => rfl
          | ok e => cases result <;> rfl
  | get id =>
      rw [respond, Store.get, serve, table]
      simp only [MemoryStore.get]
      cases m.table.find? id <;> rfl
  | updates id since =>
      rw [respond, Store.updates, serve, table]
      simp only [MemoryStore.updates]
      cases m.table.find? id <;> rfl
  | evict cutoff => rfl

theorem requireOpen_eq_ok_iff {d : DurableStore} {during : Text} :
    d.requireOpen during = .ok () ↔ d.isOpen = true := by
  unfold DurableStore.requireOpen
  cases d.isOpen <;> simp

theorem requireWritable_eq_ok_iff {d : DurableStore} {during : Text} :
    d.requireWritable during = .ok () ↔ d.readOnly = false := by
  unfold DurableStore.requireWritable
  cases d.readOnly <;> simp

/-- A transaction that begins finds the store ready. -/
theorem isReady_of_begin
    {d d' : DurableStore} {during id : Text} {e : JobEntry}
    (h : DurableStore.begin during id d = (.ok e, d')) : (durable d).IsReady := by
  rw [DurableStore.begin, run_get_bind] at h
  obtain ⟨_, d₁, hopen, h⟩ := exists_of_bind_eq_ok h
  obtain ⟨_, d₂, -, h⟩ := exists_of_bind_eq_ok h
  obtain ⟨_, d₃, hwritable, -⟩ := exists_of_bind_eq_ok h
  rw [run_lift] at hopen hwritable
  exact ⟨requireOpen_eq_ok_iff.mp (Prod.mk.inj hopen).1,
    requireWritable_eq_ok_iff.mp (Prod.mk.inj hwritable).1⟩

section Ready

variable {d : DurableStore} (h : (durable d).IsReady)
include h

theorem run_begin_bind (f : JobEntry → Transaction DurableStore α) (during id : Text) :
    (DurableStore.begin during id >>= f) d =
      match d.table.open? id with
      | .error e => (.error e, d)
      | .ok e => f e d := by
  rw [run_bind, DurableStore.begin, run_get_bind, run_lift_bind, requireOpen_eq_ok_iff.mpr h.1]
  dsimp only
  rw [run_lift_bind]
  cases d.table.open? id with
  | error e => rfl
  | ok e =>
      dsimp only
      rw [run_lift_bind, requireWritable_eq_ok_iff.mpr h.2]
      rfl

theorem run_requireBoth_bind (f : Unit → Transaction DurableStore α) (during : Text) :
    (DurableStore.requireBoth during >>= f) d = f () d := by
  rw [run_bind, DurableStore.requireBoth, run_get_bind, run_lift_bind,
    requireOpen_eq_ok_iff.mpr h.1]
  dsimp only
  rw [run_lift, requireWritable_eq_ok_iff.mpr h.2]
  rfl

theorem respond_durable (c : Call Int) :
    (durable d).respond ⟨true, c⟩ = (durable d).settle ((durable d).serve c) := by
  cases c with
  | create now id =>
      rw [respond, create, run_require_bind, either_durable, DurableStore.create,
        run_requireBoth_bind h]
      rfl
  | start now id =>
      rw [respond, start, run_require_bind, either_durable, DurableStore.start,
        run_begin_bind h, serve, table]
      cases d.table.open? id <;> rfl
  | append now id kind message =>
      rw [respond, append, run_require_bind, either_durable, DurableStore.append,
        run_begin_bind h, serve, table]
      cases d.table.open? id <;> rfl
  | finish now id status result =>
      rw [respond, finish, either_durable, run_lift_bind, Bool.true_or, require, if_pos rfl, serve,
        table]
      unfold DurableStore.finish
      cases status.isTerminal with
      | false => rfl
      | true =>
          rw [if_pos rfl, if_pos rfl, run_begin_bind h]
          cases d.table.open? id <;> rfl
  | get id =>
      rw [respond, Store.get, serve, table]
      simp only [DurableStore.get, DurableStore.entry, requireOpen_eq_ok_iff.mpr h.1]
      cases d.table.find? id <;> rfl
  | updates id since =>
      rw [respond, Store.updates, serve, table]
      simp only [DurableStore.updates, DurableStore.entry, requireOpen_eq_ok_iff.mpr h.1]
      cases d.table.find? id <;> rfl
  | evict cutoff =>
      rw [respond, evict, run_require_bind, either_durable, DurableStore.evict,
        run_requireBoth_bind h]
      rfl

end Ready

theorem respond_of_ready {s : Store} (h : s.IsReady) (c : Call Int) :
    s.respond ⟨true, c⟩ = s.settle (s.serve c) := by
  cases s with
  | memory m => exact respond_memory m c
  | durable d => exact respond_durable h c

theorem respond_of_serve_error
    {s : Store} (hready : s.IsReady) {c : Call Int} {err : StoreError}
    (h : s.serve c = .error err) : s.respond ⟨true, c⟩ = (.error err, s) := by
  rw [respond_of_ready hready, h, settle]

theorem respond_of_serve_ok
    {s s₁ : Store} (hready : s.IsReady) {c : Call Int} {a : Answer}
    (h : s.serve c = .ok (a, s₁)) : s.respond ⟨true, c⟩ = (.ok a, s₁) := by
  rw [respond_of_ready hready, h, settle]

/-- What the call of a durable store answers. -/
theorem of_either_eq_ok
    {onMemory : Transaction MemoryStore α} {onDurable : Transaction DurableStore α}
    {d : DurableStore} {s' : Store} {a : α}
    (h : either onMemory onDurable (durable d) = (.ok a, s')) :
    onDurable d = (.ok a, (onDurable d).2) :=
  Prod.ext (Prod.mk.inj h).1 rfl

/-- A store that adds an update is ready. -/
theorem isReady_of_append
    {s s' : Store} {permitted : Bool} {now : Int} {id : Text} {kind : Kind} {message : Text}
    {u : Progress} (h : append permitted now id kind message s = (.ok u, s')) : s.IsReady := by
  obtain ⟨_, s₁, hrequired, h⟩ := exists_of_bind_eq_ok h
  rw [run_lift] at hrequired
  obtain ⟨-, rfl⟩ := Prod.mk.inj hrequired
  cases s with
  | memory m => trivial
  | durable d =>
      obtain ⟨e, d₁, hbegin, -⟩ := exists_of_bind_eq_ok (of_either_eq_ok h)
      exact isReady_of_begin hbegin

/-- A store that ends a job is ready. -/
theorem isReady_of_finish
    {s s' : Store} {permitted : Bool} {now : Int} {id : Text} {status : Status}
    {result : Option JobResult} (h : finish permitted now id status result s = (.ok (), s')) :
    s.IsReady := by
  cases s with
  | memory m => trivial
  | durable d =>
      obtain ⟨_, d₁, hrequired, h⟩ := exists_of_bind_eq_ok (of_either_eq_ok h)
      rw [run_lift] at hrequired
      obtain ⟨-, rfl⟩ := Prod.mk.inj hrequired
      unfold DurableStore.finish at h
      split at h
      · obtain ⟨e, d₁, hbegin, -⟩ := exists_of_bind_eq_ok h
        exact isReady_of_begin hbegin
      · cases h

end Answers

/-! ## Effects -/

/-- What a call that is not refused does: the answer, and the store that it leaves. -/
inductive Effect (s : Store) : Call Int → Answer → Store → Prop
  | create (now : Int) (id : Text) :
      Effect s (.create now id) (.job (s.newEntry now id).job)
        (s.withTable (s.table ++ [s.newEntry now id]))
  | start {now : Int} {id : Text} {e : JobEntry} (h : s.table.open? id = .ok e) :
      Effect s (.start now id) .done (s.withTable (s.table.replace (s.startedEntry now e)))
  | append {now : Int} {id : Text} {e : JobEntry} (kind : Kind) (message : Text)
      (h : s.table.open? id = .ok e) :
      Effect s (.append now id kind message) (.update (s.newUpdate e.updates now kind message))
        (s.counted.withTable (s.table.replace (s.longerEntry now kind message e)))
  | finish {now : Int} {id : Text} {e : JobEntry} {status : Status} (result : Option JobResult)
      (hstatus : status.isTerminal = true) (h : s.table.open? id = .ok e) :
      Effect s (.finish now id status result) .done
        (s.withTable (s.table.replace (s.endedEntry now status result e)))
  | get {id : Text} {e : JobEntry} (h : s.table.find? id = some e) :
      Effect s (.get id) (.job e.job) s
  | updates {id : Text} {e : JobEntry} (since : Int) (h : s.table.find? id = some e) :
      Effect s (.updates id since) (.updates (JobTable.updatesAfter e since)) s
  | evict (cutoff : Int) :
      Effect s (.evict cutoff) (.evicted (s.table.countP fun e => s.expires cutoff e.job))
        (s.withTable (s.table.filter fun e => !s.expires cutoff e.job))

theorem exists_of_map_eq_ok
    {α β : Type} {x : Except StoreError α} {f : α → β} {b : β} (h : x.map f = .ok b) :
    ∃ a, x = .ok a ∧ f a = b := by
  cases x with
  | error e => cases h
  | ok a => exact ⟨a, rfl, Except.ok.inj h⟩

theorem effect_of_serve {s s' : Store} {c : Call Int} {a : Answer}
    (h : s.serve c = .ok (a, s')) : s.Effect c a s' := by
  cases c with
  | create now id =>
      cases h
      exact .create now id
  | start now id =>
      rw [serve] at h
      obtain ⟨e, hopen, heq⟩ := exists_of_map_eq_ok h
      cases heq
      exact .start hopen
  | append now id kind message =>
      rw [serve] at h
      obtain ⟨e, hopen, heq⟩ := exists_of_map_eq_ok h
      cases heq
      exact .append kind message hopen
  | finish now id status result =>
      rw [serve] at h
      split at h
      next hstatus =>
        obtain ⟨e, hopen, heq⟩ := exists_of_map_eq_ok h
        cases heq
        exact .finish result hstatus hopen
      next => cases h
  | get id =>
      rw [serve] at h
      split at h
      next => cases h
      next e hfind =>
        cases h
        exact .get hfind
  | updates id since =>
      rw [serve] at h
      split at h
      next => cases h
      next e hfind =>
        cases h
        exact .updates since hfind
  | evict cutoff =>
      cases h
      exact .evict cutoff

/-- A request is refused, or it has an effect. -/
theorem respond_cases {s : Store} (hready : s.IsReady) (r : Request) :
    (∃ e, s.respond r = (.error e, s)) ∨
      ∃ a s', s.respond r = (.ok a, s') ∧ s.Effect r.call a s' := by
  obtain ⟨permitted, c⟩ := r
  cases permitted with
  | false =>
      obtain ⟨e, hrefused⟩ := exists_respond_eq_error s c
      exact .inl ⟨e, hrefused⟩
  | true =>
      cases hserve : s.serve c with
      | error e => exact .inl ⟨e, respond_of_serve_error hready hserve⟩
      | ok answered =>
          obtain ⟨a, s'⟩ := answered
          exact .inr ⟨a, s', respond_of_serve_ok hready hserve, effect_of_serve hserve⟩

theorem effect_of_respond
    {s s' : Store} {r : Request} {a : Answer} (hready : s.IsReady)
    (h : s.respond r = (.ok a, s')) : s.Effect r.call a s' := by
  rcases respond_cases hready r with ⟨e, hrefused⟩ | ⟨a', s'', hanswer, heffect⟩
  · rw [hrefused] at h
    cases h
  · rw [hanswer] at h
    cases h
    exact heffect

/-! ## What calls leave alone -/

@[simp]
theorem table_withTable (s : Store) (t : JobTable) : (s.withTable t).table = t := by
  cases s <;> rfl

/-- Stores of one kind under the same rules. -/
def IsLike : Store → Store → Prop
  | memory m, memory m' => m.maxUpdates = m'.maxUpdates
  | durable d, durable d' => d.isOpen = d'.isOpen ∧ d.readOnly = d'.readOnly
  | _, _ => False

theorem IsLike.refl (s : Store) : s.IsLike s := by
  cases s with
  | memory m => rfl
  | durable d => exact ⟨rfl, rfl⟩

theorem IsLike.trans {s s' s'' : Store} (h : s.IsLike s') (h' : s'.IsLike s'') : s.IsLike s'' := by
  cases s <;> cases s' <;> cases s'' <;> simp_all [IsLike]

theorem IsLike.ready {s s' : Store} (h : s.IsLike s') (hready : s'.IsReady) : s.IsReady := by
  cases s <;> cases s' <;> simp_all [IsLike, IsReady]

theorem IsLike.dated {s s' : Store} (h : s.IsLike s') : s.dated = s'.dated := by
  cases s <;> cases s' <;> simp_all [IsLike] <;> rfl

theorem Effect.isLike {s s' : Store} {c : Call Int} {a : Answer} (h : s.Effect c a s') :
    s'.IsLike s := by
  cases h with
  | get | updates => exact .refl s
  | _ =>
      cases s with
      | memory m => rfl
      | durable d => exact ⟨rfl, rfl⟩

theorem respond_isLike {s : Store} (hready : s.IsReady) (r : Request) :
    (s.respond r).2.IsLike s := by
  rcases respond_cases hready r with ⟨e, h⟩ | ⟨a, s', h, heffect⟩
  · rw [h]
    exact .refl s
  · rw [h]
    exact heffect.isLike

end Population.Store
