import Population.Proofs.Analysis.Course
import Population.Proofs.Bus.Delivery
import Population.Proofs.Job.History

/-!
# Callers at work side by side

Any number of callers share a service and take turns in an arbitrary order.  In one
turn a caller makes one call of the store, or publishes one update, or takes one
quiet step; so an update that a caller reports is recorded in one turn and published
in a later one, and the caller owes it in between.  A caller that is alone does what
its operation does.  One turn answers at most one request of the store, and the turns
of all callers together are a history of the store.
-/

namespace Population

open Refusal (bind_of_ok bind_of_error)

/-! ## Turns -/

/-- A caller at work. -/
structure Caller where
  context : Allowance
  /-- The result of its analysis so far. -/
  draft : Option JobResult := none
  /-- What it still has to do. -/
  course : Course ServiceError Unit
  /-- The update, and its job, that it has recorded and still has to publish. -/
  owes : Option (Text × Progress) := none

namespace Caller

def beginning {act : Act ServiceError Unit} (r : Routine act) (context : Allowance) : Caller where
  context := context
  course := r.course

/-- The service as the caller sees it. -/
def session (c : Caller) (v : Service) : Session where
  service := v
  context := c.context
  draft := c.draft

/-- The service, and the caller with this much to do, after a step. -/
def resume (s : Session) (course : Course ServiceError Unit)
    (owes : Option (Text × Progress)) : Service × Caller :=
  (s.service, { context := s.context, draft := s.draft, course, owes })

/-- One turn of a caller.  What it owes is published first; a report is only recorded. -/
def turn (c : Caller) (v : Service) : Service × Caller :=
  match c.owes with
  | some (id, u) =>
    let published : Except ServiceError Unit × Session := Act.announce id u (c.session v)
    resume published.2 c.course none
  | none =>
    match c.course with
    | .done _ => (v, c)
    | .quiet step next => resume (step.change (c.session v)) (next (c.session v)) none
    | .errand (.report id kind message) next =>
      match Act.record id kind message (c.session v) with
      | (.ok u, s) => resume s (next (.ok ())) (some (id, u))
      | (.error e, s) => resume s (next (.error e)) none
    | .errand e next => resume (e.act (c.session v)).2 (next (e.act (c.session v)).1) none

/-- What the operation of a caller returned, once it has. -/
def outcome? (c : Caller) : Option (Except ServiceError Unit) :=
  match c.course, c.owes with
  | .done outcome, none => some outcome
  | _, _ => none

end Caller

/-- Callers at work on a service. -/
structure Interplay where
  service : Service
  callers : List Caller
  /-- The updates recorded so far, each with its job. -/
  recorded : List (Text × Progress) := []

namespace Interplay

def store (p : Interplay) : Store :=
  p.service.registry.store

/-- What the operation of the caller with this number returned. -/
def outcome? (p : Interplay) (i : Nat) : Option (Except ServiceError Unit) :=
  p.callers[i]?.bind Caller.outcome?

/-- The caller with this number takes a turn, if there is one. -/
def turn (p : Interplay) (i : Nat) : Interplay :=
  match p.callers[i]? with
  | none => p
  | some c =>
    { service := (c.turn p.service).1
      callers := p.callers.set i (c.turn p.service).2
      recorded := p.recorded ++ (c.turn p.service).2.owes.toList }

/-- The callers take turns in the order of a schedule. -/
def play (p : Interplay) (schedule : List Nat) : Interplay :=
  schedule.foldl turn p

@[simp]
theorem play_nil (p : Interplay) : p.play [] = p :=
  rfl

@[simp]
theorem play_cons (p : Interplay) (i : Nat) (schedule : List Nat) :
    p.play (i :: schedule) = (p.turn i).play schedule :=
  rfl

theorem play_append (p : Interplay) (schedule schedule' : List Nat) :
    p.play (schedule ++ schedule') = (p.play schedule).play schedule' :=
  List.foldl_append

theorem turn_of_none {p : Interplay} {i : Nat} (h : p.callers[i]? = none) : p.turn i = p := by
  simp only [turn, h]

theorem turn_of_some {p : Interplay} {i : Nat} {c : Caller} (h : p.callers[i]? = some c) :
    p.turn i =
      { service := (c.turn p.service).1
        callers := p.callers.set i (c.turn p.service).2
        recorded := p.recorded ++ (c.turn p.service).2.owes.toList } := by
  simp only [turn, h]

end Interplay

/-! ## A caller that is alone -/

/-- The interplay of a single caller that owes nothing. -/
def Interplay.alone (s : Session) (course : Course ServiceError Unit)
    (recorded : List (Text × Progress)) : Interplay where
  service := s.service
  callers := [{ context := s.context, draft := s.draft, course }]
  recorded := recorded

theorem Interplay.exists_play_alone
    (course : Course ServiceError Unit) (s : Session) (recorded : List (Text × Progress)) :
    ∃ n recorded', (alone s course recorded).play (List.replicate n 0) =
      alone (course.run s).2 (.done (course.run s).1) recorded' := by
  induction course generalizing s recorded with
  | done outcome => exact ⟨0, recorded, rfl⟩
  | quiet step next ih =>
      obtain ⟨n, recorded', hplay⟩ := ih s (step.change s) (recorded ++ [])
      exact ⟨n + 1, recorded', hplay⟩
  | errand e next ih =>
      -- Only a report takes more than one turn.
      cases e with
      | start id =>
          obtain ⟨n, recorded', hplay⟩ :=
            ih (Errand.act (.start id) s).1 (Errand.act (.start id) s).2 (recorded ++ [])
          exact ⟨n + 1, recorded', hplay⟩
      | finish id status result =>
          obtain ⟨n, recorded', hplay⟩ :=
            ih (Errand.act (.finish id status result) s).1
              (Errand.act (.finish id status result) s).2 (recorded ++ [])
          exact ⟨n + 1, recorded', hplay⟩
      | report id kind message =>
          rcases hrecord : Act.record id kind message s with ⟨e | u, s'⟩
          · have hact : Errand.act (.report id kind message) s = (.error e, s') :=
              bind_of_error hrecord _
            obtain ⟨n, recorded', hplay⟩ := ih (.error e) s' (recorded ++ [])
            refine ⟨n + 1, recorded', ?_⟩
            rw [Course.run_errand hact next, ← hplay]
            simp [alone, turn, Caller.turn, Caller.session, Caller.resume, hrecord,
              List.replicate_succ]
          · -- The update is recorded in one turn and published in the next.
            obtain ⟨v, hannounce, -⟩ := Act.announce_eq ServiceError id u s'
            have hact : Errand.act (.report id kind message) s =
                (.ok (), { s' with service := v }) :=
              (bind_of_ok hrecord _).trans hannounce
            obtain ⟨n, recorded', hplay⟩ :=
              ih (.ok ()) { s' with service := v } (recorded ++ [(id, u)] ++ [])
            refine ⟨n + 2, recorded', ?_⟩
            rw [Course.run_errand hact next, ← hplay]
            simp [alone, turn, Caller.turn, Caller.session, Caller.resume, hrecord, hannounce,
              List.replicate_succ]

/-- A caller that is alone does what its operation does. -/
theorem Interplay.exists_perform_alone
    {act : Act ServiceError Unit} (r : Routine act) (v : Service) (context : Allowance) :
    ∃ n q, play { service := v, callers := [.beginning r context] } (List.replicate n 0) = q ∧
      q.service = (v.perform context act).2 ∧ q.outcome? 0 = some (v.perform context act).1 := by
  obtain ⟨n, recorded, hplay⟩ := exists_play_alone r.course { service := v, context } []
  rw [r.run_eq] at hplay
  exact ⟨n, _, hplay, rfl, rfl⟩

/-! ## Calls of the store -/

namespace Act

/-- A call of the store does not get through once the store is broken for it. -/
theorem getsThrough_cases (ε : Type) (which : StoreCall) (s : Session) :
    (s.service.breakage = some ⟨which, 0⟩ ∧
      (getsThrough which : Act ε Bool) s = (.ok false, s)) ∨
    ∃ breakage, (getsThrough which : Act ε Bool) s =
      (.ok true, { s with service := { s.service with breakage } }) := by
  unfold getsThrough
  rw [run_look_bind]
  cases hbreakage : s.service.breakage with
  | none => exact .inr ⟨s.service.breakage, by simp; rfl⟩
  | some b =>
      dsimp only
      by_cases hcall : b.call = which
      · by_cases hleft : b.left = 0
        · rw [if_neg (by simp [hcall]), if_pos hleft]
          exact .inl ⟨by rw [← hcall, ← hleft], rfl⟩
        · rw [if_neg (by simp [hcall]), if_neg hleft]
          exact .inr ⟨_, rfl⟩
      · rw [if_pos hcall]
        exact .inr ⟨s.service.breakage, rfl⟩

/-- A call fails because the store is broken, or the registry answers it. -/
theorem call_cases
    {α : Type} (which : StoreCall) (f : Bool → Registry → Except StoreError α × Registry)
    (s : Session) :
    (s.service.breakage = some ⟨which, 0⟩ ∧ call which f s = (.error s.service.failure, s)) ∨
    ∃ breakage, call which f s =
      ((f s.context.poll.isSome s.service.registry).1,
        { s with
          context := s.context.poll.getD s.context
          service := { s.service with
            breakage, registry := (f s.context.poll.isSome s.service.registry).2 } }) := by
  unfold call
  rcases getsThrough_cases StoreError which s with ⟨hbroken, hrun⟩ | ⟨breakage, hrun⟩
  · exact .inl ⟨hbroken, by rw [bind_of_ok hrun]; rfl⟩
  · refine .inr ⟨breakage, ?_⟩
    rw [bind_of_ok hrun, if_pos rfl, bind_of_ok (permitted_eq _), registry_eq]

end Act

namespace Registry

variable (r : Registry) (permitted : Bool) (id : Text)

theorem respond_start :
    r.store.respond ⟨permitted, .start r.now id⟩ =
      ((r.start permitted id).1.map fun _ => .done, (r.start permitted id).2.store) :=
  rfl

theorem respond_append (kind : Kind) (message : Text) :
    r.store.respond ⟨permitted, .append r.now id kind message⟩ =
      ((r.append permitted id kind message).1.map .update,
        (r.append permitted id kind message).2.store) :=
  rfl

theorem respond_finish (status : Status) (result : Option JobResult) :
    r.store.respond ⟨permitted, .finish r.now id status result⟩ =
      ((r.finish permitted id status result).1.map fun _ => .done,
        (r.finish permitted id status result).2.store) :=
  rfl

end Registry

/-- What keeps a call of the store from success: the store is broken for such calls,
or the caller's run was cancelled, or the store refuses. -/
def Session.Obstructs (s : Session) (which : StoreCall) (c : Store.Call Int) : Prop :=
  s.service.breakage = some ⟨which, 0⟩ ∨ s.context.poll = none ∨
    ∃ e, (s.service.registry.store.respond ⟨true, c⟩).1 = .error e

/-- A call is obstructed and nothing changes, or the store answers it. -/
theorem Act.call_outcome
    {α : Type} {which : StoreCall} {f : Bool → Registry → Except StoreError α × Registry}
    {request : Registry → Store.Call Int} {answer : α → Store.Answer}
    (hf : ∀ allowed r, r.store.respond ⟨allowed, request r⟩ =
      ((f allowed r).1.map answer, (f allowed r).2.store)) (s : Session) :
    (∃ e s', call which f s = (.error e, s') ∧ s'.hub = s.hub ∧
      s.Obstructs which (request s.service.registry)) ∨
    ∃ a s', call which f s = (.ok a, s') ∧ s'.service.bus = s.service.bus ∧
      s.context.poll = some s'.context ∧
      s.service.registry.store.respond ⟨true, request s.service.registry⟩ =
        (.ok (answer a), s'.service.registry.store) := by
  rcases call_cases which f s with ⟨hbroken, hrun⟩ | ⟨breakage, hrun⟩
  · exact .inl ⟨_, s, hrun, rfl, .inl hbroken⟩
  have hrespond := hf s.context.poll.isSome s.service.registry
  cases hanswer : (f s.context.poll.isSome s.service.registry).1 with
  | error e =>
      rw [hanswer] at hrun hrespond
      have hsame := Store.respond_of_error (congrArg Prod.fst hrespond)
      refine .inl ⟨e, _, hrun, ?_, ?_⟩
      · have hstore := congrArg Prod.snd (hrespond.symm.trans hsame)
        simp only at hstore
        simp only [Session.hub, hstore]
      · cases hpoll : s.context.poll with
        | none => exact .inr (.inl hpoll)
        | some context =>
            rw [hpoll] at hsame
            exact .inr (.inr ⟨e, congrArg Prod.fst hsame⟩)
  | ok a =>
      rw [hanswer] at hrun hrespond
      cases hpoll : s.context.poll with
      | none =>
          -- A caller who may not go on is not answered.
          rw [hpoll] at hrespond
          obtain ⟨e, hrefused⟩ := Store.exists_respond_eq_error s.service.registry.store
            (request s.service.registry)
          exact absurd (hrefused.symm.trans hrespond) (by simp [Except.map])
      | some context =>
          rw [hpoll] at hrun hrespond
          exact .inr ⟨a, _, hrun, rfl, rfl, hrespond⟩

/-! ## What a turn does -/

theorem Act.announce_hub (ε : Type) (id : Text) (u : Progress) (s : Session) :
    ((announce id u : Act ε Unit) s).2.hub =
      (s.service.registry.store, s.service.bus.map (·.announced ⟨id, u⟩)) := by
  unfold announce
  rw [run_look_bind]
  cases hbus : s.service.bus with
  | none => exact congrArg _ hbus
  | some b =>
      dsimp only
      cases hpublish : b.publish ⟨id, u⟩ with
      | ok b' => simp [Bus.announced, hpublish]; rfl
      | error e =>
          simp only [Option.map_some, Bus.announced, hpublish]
          exact congrArg _ hbus

/-- A record is obstructed and nothing changes, or the store takes the update. -/
theorem Act.record_outcome (id : Text) (kind : Kind) (message : Text) (s : Session) :
    (∃ e s', record id kind message s = (.error e, s') ∧ s'.hub = s.hub ∧
      s.Obstructs .append (.append s.service.registry.now id kind message)) ∨
    ∃ u s', record id kind message s = (.ok u, s') ∧ s'.service.bus = s.service.bus ∧
      s.context.poll = some s'.context ∧
      s.service.registry.store.respond
          ⟨true, .append s.service.registry.now id kind message⟩ =
        (.ok (.update u), s'.service.registry.store) := by
  unfold record
  rcases call_outcome (fun allowed r => r.respond_append allowed id kind message) s with
    ⟨e, s', hrun, hhub, hobstructs⟩ | ⟨u, s', hrun, hbus, hpoll, hrespond⟩
  · exact .inl ⟨_, s', bind_of_error (refusing_of_error hrun _) _, hhub, hobstructs⟩
  · refine .inr ⟨u, _, bind_of_ok (refusing_of_ok hrun _) _, hbus, hpoll, hrespond⟩

/-- The calls of the store by which a job moves on. -/
inductive Store.Call.Advances : Call Int → Prop
  | start (now : Int) (id : Text) : Advances (.start now id)
  | append (now : Int) (id : Text) (kind : Kind) (message : Text) :
      Advances (.append now id kind message)
  | finish (now : Int) (id : Text) (status : Status) (result : Option JobResult) :
      Advances (.finish now id status result)

theorem Store.Log.created_of_advances
    {log : Log} (h : ∀ x ∈ log, x.request.call.Advances) : log.created = [] := by
  rw [created, List.filterMap_eq_nil_iff]
  rintro ⟨⟨permitted, call⟩, answer⟩ hx
  cases h _ hx <;> rfl

/-- One turn of a caller, from the point of view of all others. -/
inductive Caller.Deed (v v' : Service) (c c' : Caller) : Prop
  /-- Nothing that others could notice. -/
  | idle (hstore : v'.registry.store = v.registry.store) (hbus : v'.bus = v.bus)
      (howed : c.owes = none) (howes : c'.owes = none)
  /-- The store answers a request. -/
  | call (r : Store.Request) (hadvances : r.call.Advances)
      (hstore : v'.registry.store = (v.registry.store.respond r).2) (hbus : v'.bus = v.bus)
      (howed : c.owes = none)
      (howes : c'.owes = Store.Exchange.appended? ⟨r, (v.registry.store.respond r).1⟩)
  /-- The update that the caller owes is published. -/
  | publish {id : Text} {u : Progress} (hstore : v'.registry.store = v.registry.store)
      (hbus : v'.bus = v.bus.map (·.announced ⟨id, u⟩)) (howed : c.owes = some (id, u))
      (howes : c'.owes = none)

theorem Caller.deed_of_call
    {α : Type} {which : StoreCall} {f : Bool → Registry → Except StoreError α × Registry}
    {request : Registry → Store.Call Int} {answer : α → Store.Answer}
    (hf : ∀ allowed r, r.store.respond ⟨allowed, request r⟩ =
      ((f allowed r).1.map answer, (f allowed r).2.store)) {v : Service} {c : Caller}
    (howed : c.owes = none) (hadvances : ∀ r, (request r).Advances)
    (happend : ∀ r x, Store.Exchange.appended? ⟨⟨true, request r⟩, x⟩ = none)
    (course : Course ServiceError Unit) :
    Deed v (Act.call which f (c.session v)).2.service c
      (resume (Act.call which f (c.session v)).2 course none).2 := by
  rcases Act.call_outcome hf (c.session v) with
    ⟨e, s', hrun, hhub, -⟩ | ⟨a, s', hrun, hbus, -, hrespond⟩
  · rw [hrun]
    exact .idle (congrArg Prod.fst hhub) (congrArg Prod.snd hhub) howed rfl
  · rw [hrun]
    refine .call ⟨true, request v.registry⟩ (hadvances v.registry) ?_ hbus howed ?_
    · exact (congrArg Prod.snd hrespond).symm
    · exact (happend _ _).symm

/-- A turn is idle, or one call of the store, or one publication. -/
theorem Caller.turn_deed (c : Caller) (v : Service) : Deed v (c.turn v).1 c (c.turn v).2 := by
  unfold turn
  split
  next id u howed =>
    have hhub := Act.announce_hub ServiceError id u (c.session v)
    exact .publish (congrArg Prod.fst hhub) (congrArg Prod.snd hhub) howed rfl
  next howed =>
    split
    next => exact .idle rfl rfl howed howed
    next step next _ =>
      have hhub := step.keeps (c.session v)
      exact .idle (congrArg Prod.fst hhub) (congrArg Prod.snd hhub) howed rfl
    next id kind message next _ =>
      rcases Act.record_outcome id kind message (c.session v) with
        ⟨e, s', hrun, hhub, -⟩ | ⟨u, s', hrun, hbus, -, hrespond⟩
      · rw [hrun]
        exact .idle (congrArg Prod.fst hhub) (congrArg Prod.snd hhub) howed rfl
      · rw [hrun]
        have hanswer : (v.registry.store.respond
            ⟨true, .append v.registry.now id kind message⟩).1 = .ok (.update u) :=
          congrArg Prod.fst hrespond
        refine .call ⟨true, .append v.registry.now id kind message⟩ ?_ ?_ hbus howed ?_
        · exact .append _ _ _ _
        · exact (congrArg Prod.snd hrespond).symm
        · rw [hanswer]
          rfl
    next e next hnot _ =>
      cases e with
      | start id =>
          exact deed_of_call (fun allowed r => r.respond_start allowed id) howed
            (fun _ => .start _ _) (fun _ _ => rfl) _
      | report id kind message => exact absurd rfl (hnot id kind message)
      | finish id status result =>
          exact deed_of_call (fun allowed r => r.respond_finish allowed id status result) howed
            (fun _ => .finish _ _ _ _) (fun _ _ => rfl) _

namespace Interplay

theorem callers_turn_of_ne {p : Interplay} {i j : Nat} (hne : j ≠ i) :
    (p.turn j).callers[i]? = p.callers[i]? := by
  cases hcaller : p.callers[j]? with
  | none => rw [turn_of_none hcaller]
  | some c => simp [turn_of_some hcaller, hne]

theorem callers_play_of_notMem {p : Interplay} {i : Nat} {schedule : List Nat}
    (hi : i ∉ schedule) : (p.play schedule).callers[i]? = p.callers[i]? := by
  induction schedule generalizing p with
  | nil => rfl
  | cons j rest ih =>
      rw [List.mem_cons, not_or] at hi
      rw [play_cons, ih hi.2, callers_turn_of_ne (Ne.symm hi.1)]

theorem callers_turn_self {p : Interplay} {i : Nat} {c : Caller} (h : p.callers[i]? = some c) :
    (p.turn i).callers[i]? = some (c.turn p.service).2 := by
  obtain ⟨hlt, -⟩ := List.getElem?_eq_some_iff.mp h
  simp [turn_of_some h, hlt]

/-- Nobody takes the turn, or one caller does one thing. -/
theorem turn_cases (p : Interplay) (i : Nat) :
    p.callers[i]? = none ∧ p.turn i = p ∨
      ∃ c c', p.callers[i]? = some c ∧ (p.turn i).callers = p.callers.set i c' ∧
        (p.turn i).recorded = p.recorded ++ c'.owes.toList ∧
        Caller.Deed p.service (p.turn i).service c c' := by
  cases hcaller : p.callers[i]? with
  | none => exact .inl ⟨rfl, turn_of_none hcaller⟩
  | some c =>
      right
      rw [turn_of_some hcaller]
      exact ⟨c, _, rfl, rfl, rfl, c.turn_deed p.service⟩

theorem exists_history_turn (p : Interplay) (i : Nat) :
    ∃ log, Store.History p.store log (p.turn i).store ∧
      (p.turn i).recorded = p.recorded ++ log.appends ∧ ∀ x ∈ log, x.request.call.Advances := by
  rcases turn_cases p i with ⟨-, hsame⟩ | ⟨c, c', -, -, hrecorded, hdeed⟩
  · rw [hsame]
    exact ⟨[], .start, by simp [Store.Log.appends], by simp⟩
  rw [hrecorded]
  cases hdeed with
  | idle hstore hbus howed howes =>
      refine ⟨[], ?_, by simp [howes, Store.Log.appends], by simp⟩
      rw [store, store, hstore]
      exact .start
  | publish hstore hbus howed howes =>
      refine ⟨[], ?_, by simp [howes, Store.Log.appends], by simp⟩
      rw [store, store, hstore]
      exact .start
  | call r hadvances hstore hbus howed howes =>
      -- What the caller owes now is the update in the answer, if there is one.
      refine ⟨[⟨r, (p.store.respond r).1⟩], ?_, ?_, ?_⟩
      · rw [show (p.turn i).store = (p.store.respond r).2 from hstore]
        exact Store.History.start.call r
      · rw [howes, store, Store.Log.appends, List.filterMap_cons]
        cases Store.Exchange.appended? ⟨r, (p.service.registry.store.respond r).1⟩ <;> rfl
      · intro x hx
        cases List.mem_singleton.mp hx
        exact hadvances

/-- The turns of all callers are a history of the store. -/
theorem exists_history (p : Interplay) (schedule : List Nat) :
    ∃ log, Store.History p.store log (p.play schedule).store ∧
      (p.play schedule).recorded = p.recorded ++ log.appends ∧
      ∀ x ∈ log, x.request.call.Advances := by
  induction schedule generalizing p with
  | nil => exact ⟨[], .start, by simp [Store.Log.appends], by simp⟩
  | cons i rest ih =>
      obtain ⟨log, hhistory, hrecorded, hadvances⟩ := exists_history_turn p i
      obtain ⟨log', hhistory', hrecorded', hadvances'⟩ := ih (p.turn i)
      refine ⟨log ++ log', hhistory.append hhistory', ?_, ?_⟩
      · rw [play_cons, hrecorded', hrecorded, Store.Log.appends_append, List.append_assoc]
      · intro x hx
        rcases List.mem_append.mp hx with hx | hx
        · exact hadvances x hx
        · exact hadvances' x hx

end Interplay

end Population
