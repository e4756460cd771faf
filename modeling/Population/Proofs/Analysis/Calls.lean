import Population.Proofs.Analysis.Frame
import Population.Proofs.Job.Requests

/-!
# Calls of a store in memory

Each call of the store asks the caller's context once.  When nothing is broken a
call is refused exactly if the context is cancelled, provided that the job is there
and has not ended; a refused call changes nothing.  This file says what becomes of
a job that waits for its result under each operation of the service.
-/

namespace Population

open Refusal (run_get_bind run_modify_bind run_lift_bind bind_of_ok bind_of_error)

namespace Act

variable {ε ε' α β : Type}

/-! ## Runs step by step -/

section Runs

theorem run_look_bind (g : Service → α) (f : α → Act ε β) (s : Session) :
    (look g >>= f) s = f (g s.service) s :=
  rfl

theorem run_change_bind (g : Service → Service) (f : Unit → Act ε β) (s : Session) :
    (change g >>= f) s = f () { s with service := g s.service } :=
  rfl

/-- What an operation did stays done when its refusal is looked into. -/
theorem run_lift_bind (act : Act ε α) (f : Except ε α → Act ε' β) (s : Session) :
    ((ExceptT.lift act.run : Act ε' (Except ε α)) >>= f) s = f (act s).1 (act s).2 :=
  rfl

variable {act : Act ε α} {s s' : Session} {a : α} {e : ε}

theorem refusing_of_ok (h : act s = (.ok a, s')) (wrap : ε → ε') :
    act.refusing wrap s = (.ok a, s') := by
  have hrun : act.refusing wrap s = ((act s).1.mapError wrap, (act s).2) := rfl
  rw [hrun, h]
  rfl

theorem refusing_of_error (h : act s = (.error e, s')) (wrap : ε → ε') :
    act.refusing wrap s = (.error (wrap e), s') := by
  have hrun : act.refusing wrap s = ((act s).1.mapError wrap, (act s).2) := rfl
  rw [hrun, h]
  rfl

theorem orElse_of_ok {act : Act ε Unit} (h : act s = (.ok (), s')) (handle : ε → Act ε' Unit) :
    act.orElse handle s = (.ok (), s') := by
  unfold orElse
  rw [run_lift_bind, h]
  rfl

/-- In a detached operation the context is unlimited, and the old one comes back. -/
theorem detached_eq (act : Act ε α) (s : Session) :
    detached act s =
      ((act { s with context := .unlimited }).1,
        { (act { s with context := .unlimited }).2 with context := s.context }) := by
  unfold detached
  rw [run_get_bind]
  dsimp only
  rw [run_modify_bind, run_lift_bind]
  rcases act { s with context := .unlimited } with ⟨e | a, s'⟩
  · rfl
  · rfl

end Runs

/-! ## Calls -/

section Calls

variable {s : Session}

theorem permitted_eq (s : Session) :
    (permitted : Act ε Bool) s =
      (.ok s.context.poll.isSome, { s with context := s.context.poll.getD s.context }) := by
  unfold permitted
  rw [run_get_bind]
  cases s.context.poll with
  | none => rfl
  | some a => rfl

theorem registry_eq (f : Registry → Except StoreError α × Registry) (s : Session) :
    registry f s =
      ((f s.service.registry).1,
        { s with service := { s.service with registry := (f s.service.registry).2 } }) := by
  unfold registry
  rw [run_look_bind]
  rcases f s.service.registry with ⟨e | a, r⟩
  · rfl
  · rfl

theorem getsThrough_eq (which : StoreCall) (hsound : s.service.breakage = none) :
    (getsThrough which : Act ε Bool) s = (.ok true, s) := by
  unfold getsThrough
  rw [run_look_bind, hsound]
  rfl

/-- A call of a store that is not broken asks the context and then the registry. -/
theorem call_eq
    (which : StoreCall) (f : Bool → Registry → Except StoreError α × Registry)
    (hsound : s.service.breakage = none) :
    call which f s =
      ((f s.context.poll.isSome s.service.registry).1,
        { s with
          context := s.context.poll.getD s.context
          service := { s.service with
            registry := (f s.context.poll.isSome s.service.registry).2 } }) := by
  unfold call
  rw [bind_of_ok (getsThrough_eq which hsound), if_pos rfl, bind_of_ok (permitted_eq s),
    registry_eq]

end Calls

end Act

/-! ## Jobs that wait for their result -/

/-- The service keeps jobs in memory, no call of its store fails, and this job has
neither ended nor a result. -/
structure Service.Awaits (v : Service) (id : Text) : Prop where
  sound : v.breakage = none
  stored : ∃ m e, v.registry.store = .memory m ∧ m.table.find? id = some e ∧
    e.job.status.isTerminal = false ∧ e.job.result = none

/-- The service keeps jobs in memory, and this job stands as told. -/
def Service.Records (v : Service) (id : Text) (status : Status) (result : Option JobResult) :
    Prop :=
  ∃ m e, v.registry.store = .memory m ∧ m.table.find? id = some e ∧
    e.job.status = status ∧ e.job.result = result

namespace Service

variable {v v' : Service} {id : Text}

theorem Awaits.congr
    (h : v.Awaits id) (hbreakage : v'.breakage = v.breakage)
    (hstore : v'.registry.store = v.registry.store) : v'.Awaits id := by
  obtain ⟨hsound, hstored⟩ := h
  exact ⟨hbreakage.trans hsound, by rwa [hstore]⟩

theorem Records.congr
    {status : Status} {result : Option JobResult} (h : v.Records id status result)
    (hstore : v'.registry.store = v.registry.store) : v'.Records id status result := by
  unfold Records at h ⊢
  rwa [hstore]

/-- An entry that has neither ended nor a result may be replaced by another one. -/
theorem awaits_replace
    {m m' : MemoryStore} {e e' : JobEntry} (hsound : v.breakage = none)
    (hfind : m.table.find? id = some e) (htable : m'.table = m.table.replace e')
    (hid : e'.job.id = id) (hopen : e'.job.status.isTerminal = false)
    (hresult : e'.job.result = none) :
    Awaits { v with registry := { v.registry with store := .memory m' } } id where
  sound := hsound
  stored := by
    refine ⟨m', e', rfl, ?_, hopen, hresult⟩
    rw [htable]
    exact JobTable.find?_replace hfind hid

theorem Awaits.start (h : v.Awaits id) :
    ∃ r, v.registry.start true id = (.ok (), r) ∧ Awaits { v with registry := r } id := by
  obtain ⟨hsound, m, e, hstore, hfind, hopen, hresult⟩ := h
  let running : JobEntry :=
    { e with job := { e.job with status := .running, updated := v.registry.now } }
  have hstart : MemoryStore.start v.registry.now id m =
      (.ok (), { m with table := m.table.replace running }) := by
    rw [MemoryStore.start, Store.run_entry_bind, JobTable.open?_eq_ok hfind hopen]
    rfl
  refine ⟨{ v.registry with store := .memory { m with table := m.table.replace running } }, ?_, ?_⟩
  · rw [Registry.start, Registry.call, hstore, Store.start, Store.run_require_bind,
      Store.either_memory, hstart]
  · exact awaits_replace hsound hfind rfl (JobTable.id_of_find? hfind :) rfl hresult

theorem Awaits.append (h : v.Awaits id) (kind : Kind) (message : Text) :
    ∃ u r, v.registry.append true id kind message = (.ok u, r) ∧
      Awaits { v with registry := r } id := by
  obtain ⟨hsound, m, e, hstore, hfind, hopen, hresult⟩ := h
  let u : Progress := { seq := m.seq + 1, kind, message, time := v.registry.now }
  let longer : JobEntry :=
    { job := { e.job with updated := v.registry.now }
      updates := MemoryStore.push m.maxUpdates e.updates u }
  let m' : MemoryStore := { m with seq := m.seq + 1, table := m.table.replace longer }
  have happend : MemoryStore.append v.registry.now id kind message m = (.ok u, m') := by
    rw [MemoryStore.append, Store.run_entry_bind, JobTable.open?_eq_ok hfind hopen]
    rfl
  refine ⟨u, { v.registry with store := .memory m' }, ?_, ?_⟩
  · rw [Registry.append, Registry.call, hstore, Store.append, Store.run_require_bind,
      Store.either_memory, happend]
  · exact awaits_replace hsound hfind rfl (JobTable.id_of_find? hfind :) hopen hresult

theorem Awaits.finish (h : v.Awaits id) {status : Status} (hstatus : status.isTerminal = true)
    (result : Option JobResult) :
    ∃ r, v.registry.finish true id status result = (.ok (), r) ∧
      Records { v with registry := r } id status result := by
  obtain ⟨hsound, m, e, hstore, hfind, hopen, hresult⟩ := h
  let ended : JobEntry :=
    { e with job := { e.job with
        status, updated := v.registry.now, finished := some v.registry.now
        result := result.or e.job.result } }
  have hfinish : MemoryStore.finish v.registry.now id status result m =
      (.ok (), { m with table := m.table.replace ended }) := by
    rw [MemoryStore.finish, if_pos hstatus, Store.run_entry_bind, JobTable.open?_eq_ok hfind hopen]
    rfl
  refine ⟨{ v.registry with store := .memory { m with table := m.table.replace ended } }, ?_, ?_⟩
  · rw [Registry.finish, Registry.call, hstore, Store.finish, Store.either_memory, run_lift_bind,
      Store.require, if_pos rfl, hfinish]
  · refine ⟨_, ended, rfl, JobTable.find?_replace hfind (JobTable.id_of_find? hfind :), rfl, ?_⟩
    simp [ended, hresult]

end Service

namespace Act

variable {s : Session} {id : Text}

theorem start_cases (h : s.service.Awaits id) :
    (s.context.poll = none ∧ start id s = (.error .cancelled, s)) ∨
      ∃ context v, s.context.poll = some context ∧ v.Awaits id ∧
        start id s = (.ok (), { s with context, service := v }) := by
  unfold start
  rw [call_eq _ _ h.sound]
  cases hpoll : s.context.poll with
  | none => exact .inl ⟨rfl, rfl⟩
  | some context =>
      obtain ⟨r, hstart, hawaits⟩ := h.start
      refine .inr ⟨context, _, rfl, hawaits, ?_⟩
      simp [hstart]

theorem append_cases (h : s.service.Awaits id) (kind : Kind) (message : Text) :
    (s.context.poll = none ∧ append id kind message s = (.error .cancelled, s)) ∨
      ∃ u context v, s.context.poll = some context ∧ v.Awaits id ∧
        append id kind message s = (.ok u, { s with context, service := v }) := by
  unfold append
  rw [call_eq _ _ h.sound]
  cases hpoll : s.context.poll with
  | none => exact .inl ⟨rfl, rfl⟩
  | some context =>
      obtain ⟨u, r, happend, hawaits⟩ := h.append kind message
      refine .inr ⟨u, context, _, rfl, hawaits, ?_⟩
      simp [happend]

/-- Publishing and logging leave the store alone. -/
theorem announce_eq (ε : Type) (id : Text) (u : Progress) (s : Session) :
    ∃ v, (announce id u : Act ε Unit) s = (.ok (), { s with service := v }) ∧
      v.breakage = s.service.breakage ∧ v.registry = s.service.registry := by
  unfold announce
  rw [run_look_bind]
  cases s.service.bus with
  | none => exact ⟨s.service, rfl, rfl, rfl⟩
  | some b =>
      dsimp only
      cases b.publish ⟨id, u⟩ with
      | ok b' => exact ⟨_, rfl, rfl, rfl⟩
      | error e => exact ⟨_, rfl, rfl, rfl⟩

/-- A report is refused exactly when the context is cancelled. -/
theorem report_cases (h : s.service.Awaits id) (kind : Kind) (message : Text) :
    (s.context.poll = none ∧
      report id kind message s =
        (.error (.during ("report to job " ++ id) .cancelled), s)) ∨
      ∃ context v, s.context.poll = some context ∧ v.Awaits id ∧
        report id kind message s = (.ok (), { s with context, service := v }) := by
  unfold report record
  rw [bind_assoc]
  rcases append_cases h kind message with ⟨hpoll, happend⟩ | ⟨u, context, v, hpoll, hv, happend⟩
  · exact .inl ⟨hpoll, bind_of_error (refusing_of_error happend _) _⟩
  · rw [bind_of_ok (refusing_of_ok happend _), log, bind_assoc, run_change_bind, pure_bind]
    obtain ⟨v', hannounce, hbreakage, hregistry⟩ := announce_eq ServiceError id u
      { s with context, service := { v with logs := v.logs ++ [⟨levelOf kind, message,
        ("oracle", .text v.oracle.name) :: [("job_id", .text id), ("kind", .text kind.text)]⟩] } }
    exact .inr ⟨context, v', hpoll, hv.congr hbreakage (congrArg _ hregistry), hannounce⟩

end Act

end Population
