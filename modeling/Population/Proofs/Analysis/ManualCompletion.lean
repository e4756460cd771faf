import Population.Proofs.Analysis.Interplay
import Population.Proofs.Job.Accounts

/-!
# Completion by hand

To complete a job by hand a caller first reports that it does, and then ends the job.
Each of the two calls of the store succeeds or leaves the store as it is, but together
they are not one: whoever comes in between may end the job, or the caller's run may be
cancelled, and then the report stays.  So a completion that is refused has not changed
the job's status, and its updates at most by that report; one that succeeds has found
the job open twice and left it completed, with the report among its updates as long as
the store has room for it.
-/

namespace Population

/-! ## The turns of one caller -/

theorem Caller.turn_of_outcome?
    {c : Caller} {outcome : Except ServiceError Unit} (h : c.outcome? = some outcome)
    (v : Service) : c.turn v = (v, c) := by
  unfold outcome? at h
  split at h
  next hcourse howes => simp only [turn, howes, hcourse]
  next => cases h

namespace Interplay

/-- The services before and after each turn of a caller. -/
def strides (p : Interplay) (i : Nat) : (schedule : List Nat) → List (Service × Service)
  | [] => []
  | j :: rest =>
    if j = i then (p.service, (p.turn j).service) :: (p.turn j).strides i rest
    else (p.turn j).strides i rest

variable {p : Interplay} {i : Nat} {c : Caller}

theorem strides_append_of_notMem {before : List Nat} (hi : i ∉ before) (after : List Nat) :
    p.strides i (before ++ after) = (p.play before).strides i after := by
  induction before generalizing p with
  | nil => rfl
  | cons j rest ih =>
      rw [List.mem_cons, not_or] at hi
      rw [List.cons_append, strides, if_neg (Ne.symm hi.1), ih hi.2]
      rfl

/-- A caller never takes a turn, or it takes a first one as it was left. -/
theorem first_turn (hcaller : p.callers[i]? = some c) (schedule : List Nat) :
    p.strides i schedule = [] ∧ (p.play schedule).callers[i]? = some c ∨
      ∃ before after, schedule = before ++ i :: after ∧
        ((p.play before).turn i).callers[i]? = some (c.turn (p.play before).service).2 ∧
        ((p.play before).turn i).service = (c.turn (p.play before).service).1 ∧
        p.strides i schedule =
          ((p.play before).service, ((p.play before).turn i).service) ::
            ((p.play before).turn i).strides i after := by
  by_cases hi : i ∈ schedule
  · right
    obtain ⟨before, after, rfl, hbefore⟩ := List.eq_append_cons_of_mem hi
    have hcaller' : (p.play before).callers[i]? = some c := by
      rw [callers_play_of_notMem hbefore, hcaller]
    refine ⟨before, after, rfl, callers_turn_self hcaller', ?_, ?_⟩
    · rw [turn_of_some hcaller']
    · rw [strides_append_of_notMem hbefore, strides, if_pos rfl]
  · left
    refine ⟨?_, by rw [callers_play_of_notMem hi, hcaller]⟩
    have hnone := strides_append_of_notMem (p := p) hi []
    rwa [List.append_nil] at hnone

/-- A caller whose operation has returned leaves the service alone. -/
theorem strides_of_outcome?
    {outcome : Except ServiceError Unit} (hcaller : p.callers[i]? = some c)
    (hreturned : c.outcome? = some outcome) (schedule : List Nat) :
    (∀ x ∈ p.strides i schedule, x.2 = x.1) ∧ (p.play schedule).callers[i]? = some c := by
  induction schedule generalizing p with
  | nil => exact ⟨by simp [strides], hcaller⟩
  | cons j rest ih =>
      by_cases hj : j = i
      · subst hj
        have hsame := Caller.turn_of_outcome? hreturned p.service
        have hnext := callers_turn_self hcaller
        rw [hsame] at hnext
        obtain ⟨hrest, hfinal⟩ := ih hnext
        refine ⟨?_, hfinal⟩
        rw [strides, if_pos rfl, List.forall_mem_cons]
        refine ⟨?_, hrest⟩
        simp only [turn_of_some hcaller, hsame]
      · obtain ⟨hrest, hfinal⟩ := ih ((callers_turn_of_ne hj).trans hcaller)
        refine ⟨?_, hfinal⟩
        rwa [strides, if_neg hj]

end Interplay

/-! ## Refusals -/

namespace Store

variable {s s' : Store} {a : Answer} {id : Text} {now : Int}

/-- An update that the store takes is added to an open job. -/
theorem effect_of_append {kind : Kind} {message : Text}
    (h : s.respond ⟨true, .append now id kind message⟩ = (.ok a, s')) :
    s.IsReady ∧ s.Effect (.append now id kind message) a s' := by
  obtain ⟨u, happend⟩ := exists_of_saying_eq_ok h
  have hready := isReady_of_append happend
  exact ⟨hready, effect_of_respond hready h⟩

/-- A job that the store ends was open. -/
theorem effect_of_finish {status : Status} {result : Option JobResult}
    (h : s.respond ⟨true, .finish now id status result⟩ = (.ok a, s')) :
    s.Effect (.finish now id status result) a s' := by
  obtain ⟨_, hfinish⟩ := exists_of_saying_eq_ok h
  exact effect_of_respond (isReady_of_finish hfinish) h

end Store

/-- Something keeps a caller's call about a job from success: the store is broken for
such calls, or the caller's run is cancelled, or the store is closed or must not be
written, or the job is not there or has ended. -/
def Service.Hinders (v : Service) (which : StoreCall) (context : Allowance) (id : Text) : Prop :=
  v.breakage = some ⟨which, 0⟩ ∨ context.poll = none ∨ ¬ v.registry.store.IsReady ∨
    ∃ e, v.registry.store.table.open? id = .error e

theorem Session.Obstructs.hinders
    {s : Session} {which : StoreCall} {c : Store.Call Int} {id : Text} (h : s.Obstructs which c)
    (hserve : ∀ e, s.service.registry.store.table.open? id = .ok e →
      ∃ a, s.service.registry.store.serve c = .ok a) :
    s.service.Hinders which s.context id := by
  rcases h with hbroken | hcancelled | ⟨e, hrefused⟩
  · exact .inl hbroken
  · exact .inr (.inl hcancelled)
  by_cases hready : s.service.registry.store.IsReady
  · cases hopen : s.service.registry.store.table.open? id with
    | error e => exact .inr (.inr (.inr ⟨e, hopen⟩))
    | ok entry =>
        obtain ⟨a, hanswer⟩ := hserve entry hopen
        rw [Store.respond_of_serve_ok hready hanswer] at hrefused
        cases hrefused
  · exact .inr (.inr (.inl hready))

/-! ## Updates that stay -/

namespace Store

/-- The store keeps an update of a job when so many have been added since. -/
def HasRoomFor (s : Store) (n : Nat) : Prop :=
  match s with
  | memory m => m.maxUpdates ≤ 0 ∨ n < m.maxUpdates
  | durable _ => True

theorem IsLike.hasRoomFor {s s' : Store} (h : s.IsLike s') : s.HasRoomFor = s'.HasRoomFor := by
  funext n
  match s, s', h with
  | memory m, memory m', (h : m.maxUpdates = m'.maxUpdates) => simp only [HasRoomFor, h]
  | durable _, durable _, _ => rfl

/-- The update is the job's, followed by those that were added since, unless there was
no room for it. -/
def Holds (s : Store) (id : Text) (u : Progress) (since : List Progress) : Prop :=
  ∃ e, s.table.find? id = some e ∧
    (s.HasRoomFor since.length → ∃ older, e.updates = older ++ u :: since)

theorem pushed_of_hasRoomFor
    {s : Store} {older since : List Progress} {u w : Progress}
    (hroom : s.HasRoomFor (since.length + 1)) :
    ∃ older', s.pushed (older ++ u :: since) w = older' ++ u :: (since ++ [w]) := by
  cases s with
  | durable d => exact ⟨older, by simp [pushed]⟩
  | memory m =>
      simp only [pushed, MemoryStore.push]
      split
      next hfull =>
        cases older with
        | nil =>
            simp only [HasRoomFor] at hroom
            simp only [List.nil_append, List.length_cons] at hfull
            omega
        | cons first older => exact ⟨older, by simp⟩
      next => exact ⟨older, by simp⟩

theorem HasRoomFor.of_succ {s : Store} {n : Nat} (h : s.HasRoomFor (n + 1)) : s.HasRoomFor n := by
  cases s with
  | durable d => trivial
  | memory m =>
      simp only [HasRoomFor] at h ⊢
      omega

/-- An entry of the job with the same updates, or one of another job, may take the place
of an entry. -/
theorem Holds.replaced
    {s s' : Store} {id id' : Text} {u : Progress} {since : List Progress} {e e' : JobEntry}
    (h : s.Holds id u since) (hlike : s'.IsLike s) (hopen : s.table.open? id' = .ok e)
    (htable : s'.table = s.table.replace e') (hid : e'.job.id = e.job.id)
    (hupdates : id' = id → e'.updates = e.updates) : s'.Holds id u since := by
  obtain ⟨entry, hfind, hkept⟩ := h
  obtain ⟨hfind', -⟩ := JobTable.of_open?_eq_ok hopen
  have hid' : e'.job.id = id' := hid.trans (JobTable.id_of_find? hfind')
  unfold Holds
  rw [htable, hlike.hasRoomFor]
  by_cases hsame : id' = id
  · subst hsame
    cases hfind.symm.trans hfind'
    exact ⟨e', JobTable.find?_replace hfind hid', by rwa [hupdates rfl]⟩
  · have hother : id ≠ e'.job.id := fun heq => hsame (hid'.symm.trans heq.symm)
    exact ⟨entry, by rw [JobTable.find?_replace_of_ne hother, hfind], hkept⟩

theorem exists_pushed_eq (s : Store) (us : List Progress) (u : Progress) :
    ∃ older, s.pushed us u = older ++ [u] := by
  cases s with
  | memory m => exact ⟨_, rfl⟩
  | durable d => exact ⟨us, rfl⟩

/-- An update that was just added is the last one, and nothing else about the job but its
date has changed. -/
theorem holds_of_append
    {s s' : Store} {now : Int} {id : Text} {kind : Kind} {message : Text} {u : Progress}
    (h : s.Effect (.append now id kind message) (.update u) s') :
    s'.Holds id u [] ∧
      (s'.table.find? id).map (·.job.status) = (s.table.find? id).map (·.job.status) := by
  cases h with
  | @append _ _ e _ _ hopen =>
      obtain ⟨hfind, -⟩ := JobTable.of_open?_eq_ok hopen
      have hfind' : (s.table.replace (s.longerEntry now kind message e)).find? id =
          some (s.longerEntry now kind message e) :=
        JobTable.find?_replace hfind (JobTable.id_of_find? hfind :)
      refine ⟨⟨s.longerEntry now kind message e, ?_, fun _ => exists_pushed_eq s _ _⟩, ?_⟩
      · rw [table_withTable, hfind']
      · rw [table_withTable, hfind', hfind]
        rfl

theorem Holds.appended
    {s s' : Store} {id : Text} {u : Progress} {since : List Progress} {e : JobEntry}
    (h : s.Holds id u since) (hlike : s'.IsLike s) (hopen : s.table.open? id = .ok e)
    (now : Int) (kind : Kind) (message : Text)
    (htable : s'.table = s.table.replace (s.longerEntry now kind message e)) :
    s'.Holds id u (since ++ [s.newUpdate e.updates now kind message]) := by
  obtain ⟨entry, hfind, hkept⟩ := h
  obtain ⟨hfind', -⟩ := JobTable.of_open?_eq_ok hopen
  cases hfind.symm.trans hfind'
  refine ⟨s.longerEntry now kind message e, ?_, ?_⟩
  · rw [htable]
    exact JobTable.find?_replace hfind (JobTable.id_of_find? hfind :)
  · rw [hlike.hasRoomFor, List.length_append, List.length_singleton]
    intro hroom
    obtain ⟨older, hupdates⟩ := hkept hroom.of_succ
    simp only [longerEntry, hupdates]
    exact pushed_of_hasRoomFor hroom

theorem Holds.respond
    {s : Store} {log : Log} {id : Text} {u : Progress} (h : s.Holds id u (log.appended id))
    (hready : s.IsReady) {r : Request} (hadvances : r.call.Advances) :
    (s.respond r).2.Holds id u (Log.appended (log ++ [⟨r, (s.respond r).1⟩]) id) := by
  rcases respond_cases hready r with ⟨err, hrefused⟩ | ⟨a, s', hanswer, heffect⟩
  · rw [hrefused, Log.appended_concat_of_none]
    · exact h
    · obtain ⟨permitted, call⟩ := r
      cases call <;> rfl
  rw [hanswer]
  obtain ⟨permitted, call⟩ := r
  have hlike := heffect.isLike
  cases heffect with
  | start hopen =>
      rw [Log.appended_concat_of_none rfl]
      exact h.replaced hlike hopen (table_withTable _ _) rfl fun _ => rfl
  | finish result hstatus hopen =>
      rw [Log.appended_concat_of_none rfl]
      exact h.replaced hlike hopen (table_withTable _ _) rfl fun _ => rfl
  | @append now id' e kind message hopen =>
      by_cases hid : id' = id
      · subst hid
        rw [Log.appended_concat_of_some rfl]
        exact h.appended hlike hopen now kind message (table_withTable _ _)
      · rw [Log.appended_concat_of_ne rfl hid]
        exact h.replaced hlike hopen (table_withTable _ _) rfl fun heq => absurd heq hid
  | _ => cases hadvances

/-- As long as jobs only move on, an update stays where there is room for it. -/
theorem Holds.history
    {s s' : Store} {log : Log} {id : Text} {u : Progress} (h : s.Holds id u [])
    (hready : s.IsReady) (hhistory : History s log s')
    (hadvances : ∀ x ∈ log, x.request.call.Advances) : s'.Holds id u (log.appended id) := by
  induction hhistory with
  | start => exact h
  | @call log s hlog r ih =>
      rw [List.forall_mem_append] at hadvances
      exact (ih hadvances.1).respond ((hlog.isLike hready).ready hready)
        (hadvances.2 _ (List.mem_singleton_self _))

theorem Holds.finish
    {s s' : Store} {now : Int} {id : Text} {status : Status} {u : Progress}
    {since : List Progress} (h : s.Holds id u since)
    (hfinish : s.Effect (.finish now id status none) .done s') :
    ∃ e, s'.table.find? id = some e ∧ e.job.status = status ∧
      (s'.HasRoomFor since.length → u ∈ e.updates) := by
  have hlike := hfinish.isLike
  obtain ⟨entry, hfind, hkept⟩ := h
  cases hfinish with
  | finish _ _ hopen =>
      obtain ⟨hfind', -⟩ := JobTable.of_open?_eq_ok hopen
      cases hfind.symm.trans hfind'
      refine ⟨s.endedEntry now status none entry, ?_, rfl, ?_⟩
      · rw [table_withTable]
        exact JobTable.find?_replace hfind (JobTable.id_of_find? hfind :)
      · rw [hlike.hasRoomFor]
        intro hroom
        obtain ⟨older, hupdates⟩ := hkept hroom
        simp [endedEntry, hupdates]

end Store

/-! ## What becomes of a completion -/

def Service.statusOf (v : Service) (id : Text) : Option Status :=
  (v.registry.store.table.find? id).map (·.job.status)

open Store in
/-- How a completion by hand ends, and what its own turns do to the service. -/
inductive ManualCompletion (id : Text) (context : Allowance) :
    Except ServiceError Unit → List (Service × Service) → Prop
  /-- The store takes the report, and ends the job as completed.  The report is among the
  job's updates unless the store had to make room for those added in between. -/
  | completed {u : Progress} {now now' : Int} {log : Log} {e : JobEntry}
      {v₁ v₁' v₂ v₂' v₃ v₃' : Service}
      (hreport : v₁.registry.store.Effect (.append now id .success completedManually) (.update u)
        v₁'.registry.store)
      (hpublish : v₂'.registry.store = v₂.registry.store)
      (hbetween : History v₁'.registry.store log v₃.registry.store)
      (hfinish : v₃.registry.store.Effect (.finish now' id .completed none) .done
        v₃'.registry.store)
      (hfind : v₃'.registry.store.table.find? id = some e) (hstatus : e.job.status = .completed)
      (hkept : v₃'.registry.store.HasRoomFor (log.appended id).length → u ∈ e.updates) :
      ManualCompletion id context (.ok ()) [(v₁, v₁'), (v₂, v₂'), (v₃, v₃')]
  /-- The store does not take the report, and nothing happens. -/
  | refused {err : ServiceError} {v v' : Service}
      (hstore : v'.registry.store = v.registry.store) (hcause : v.Hinders .append context id) :
      ManualCompletion id context (.error err) [(v, v')]
  /-- The store takes the report and then does not end the job: the report stays. -/
  | abandoned {err : ServiceError} {u : Progress} {now : Int} {context' : Allowance}
      {v₁ v₁' v₂ v₂' v₃ v₃' : Service}
      (hreport : v₁.registry.store.Effect (.append now id .success completedManually) (.update u)
        v₁'.registry.store)
      (hstatus : v₁'.statusOf id = v₁.statusOf id)
      (hpublish : v₂'.registry.store = v₂.registry.store)
      (hstore : v₃'.registry.store = v₃.registry.store) (hpoll : context.poll = some context')
      (hcause : v₃.Hinders .finish context' id) :
      ManualCompletion id context (.error err) [(v₁, v₁'), (v₂, v₂'), (v₃, v₃')]

theorem Caller.turn_of_finish
    {c : Caller} {v : Service} {id : Text} (howes : c.owes = none)
    (hcourse : c.course = .errand (.finish id .completed none) .done) :
    (∃ err, (c.turn v).2.outcome? = some (.error err) ∧
      (c.turn v).1.registry.store = v.registry.store ∧ v.Hinders .finish c.context id) ∨
    (c.turn v).2.outcome? = some (.ok ()) ∧ ∃ now,
      v.registry.store.Effect (.finish now id .completed none) .done
        (c.turn v).1.registry.store := by
  have hturn : c.turn v = resume (Errand.act (.finish id .completed none) (c.session v)).2
      (.done (Errand.act (.finish id .completed none) (c.session v)).1) none := by
    simp only [turn, howes, hcourse]
  rcases Act.call_outcome (fun allowed r => r.respond_finish allowed id .completed none)
    (c.session v) with ⟨e, s, hrun, hhub, hobstructs⟩ | ⟨⟨⟩, s, hrun, -, -, hrespond⟩
  · have hact : Errand.act (.finish id .completed none) (c.session v) = (.error (.store e), s) :=
      Act.refusing_of_error hrun _
    rw [hturn, hact]
    refine .inl ⟨_, rfl, congrArg Prod.fst hhub, hobstructs.hinders ?_⟩
    intro entry hopen
    exact ⟨_, by rw [Store.serve, hopen]; rfl⟩
  · have hact : Errand.act (.finish id .completed none) (c.session v) = (.ok (), s) :=
      Act.refusing_of_ok hrun _
    rw [hturn, hact]
    exact .inr ⟨rfl, _, Store.effect_of_finish hrespond⟩

theorem Caller.turn_of_owes
    {c : Caller} {id : Text} {u : Progress} (howes : c.owes = some (id, u)) (v : Service) :
    (c.turn v).2 = { c with owes := none } ∧
      (c.turn v).1.registry.store = v.registry.store := by
  obtain ⟨v', hannounce, -, hregistry⟩ := Act.announce_eq ServiceError id u (c.session v)
  have hturn : c.turn v = (v', { c with owes := none }) := by
    simp only [turn, howes, hannounce]
    rfl
  rw [hturn]
  exact ⟨rfl, congrArg Registry.store hregistry⟩

/-- A completion by hand reports and, if that succeeds, ends the job. -/
theorem Routine.exists_course_completeByHand (id : Text) :
    ∃ next, (completeByHand id).course = .errand (.report id .success completedManually) next ∧
      next (.ok ()) = .errand (.finish id .completed none) .done ∧
      ∀ e, next (.error e) = .done (.error e) :=
  ⟨_, rfl, rfl, fun _ => rfl⟩

theorem Caller.turn_of_beginning (id : Text) (context : Allowance) (v : Service) :
    let c := beginning (Routine.completeByHand id) context
    (∃ err, (c.turn v).2.outcome? = some (.error err) ∧
      (c.turn v).1.registry.store = v.registry.store ∧ v.Hinders .append context id) ∨
    ∃ u now, (c.turn v).2.owes = some (id, u) ∧
      (c.turn v).2.course = .errand (.finish id .completed none) .done ∧
      context.poll = some (c.turn v).2.context ∧ v.registry.store.IsReady ∧
      v.registry.store.Effect (.append now id .success completedManually) (.update u)
        (c.turn v).1.registry.store := by
  intro c
  obtain ⟨next, hcourse, hok, herror⟩ := Routine.exists_course_completeByHand id
  have hcourse : c.course = .errand (.report id .success completedManually) next := hcourse
  have howes : c.owes = none := rfl
  rcases Act.record_outcome id .success completedManually (c.session v) with
    ⟨e, s, hrun, hhub, hobstructs⟩ | ⟨u, s, hrun, -, hpoll, hrespond⟩
  · have hturn : c.turn v = resume s (.done (.error e)) none := by
      simp only [turn, howes, hcourse, hrun, herror]
    rw [hturn]
    refine .inl ⟨e, rfl, congrArg Prod.fst hhub, hobstructs.hinders ?_⟩
    intro entry hopen
    exact ⟨_, by rw [Store.serve, hopen]; rfl⟩
  · have hturn : c.turn v =
        resume s (.errand (.finish id .completed none) .done) (some (id, u)) := by
      simp only [turn, howes, hcourse, hrun, hok]
    rw [hturn]
    obtain ⟨hready, heffect⟩ := Store.effect_of_append hrespond
    exact .inr ⟨u, _, rfl, rfl, hpoll, hready, heffect⟩

namespace Interplay

variable {p : Interplay} {i : Nat} {c : Caller} {id : Text} {outcome : Except ServiceError Unit}

theorem first_turn_of_outcome?
    (hcaller : p.callers[i]? = some c) (hbusy : c.outcome? = none) {schedule : List Nat}
    (hreturned : (p.play schedule).outcome? i = some outcome) :
    ∃ before after, schedule = before ++ i :: after ∧
      ((p.play before).turn i).callers[i]? = some (c.turn (p.play before).service).2 ∧
      ((p.play before).turn i).service = (c.turn (p.play before).service).1 ∧
      p.strides i schedule =
        ((p.play before).service, ((p.play before).turn i).service) ::
          ((p.play before).turn i).strides i after := by
  rcases first_turn hcaller schedule with ⟨-, hwaits⟩ | hturn
  · rw [outcome?, hwaits] at hreturned
    cases hbusy.symm.trans hreturned
  · exact hturn

/-- Whoever returns in a turn does nothing more. -/
theorem strides_of_return
    {outcome' : Except ServiceError Unit} (hcaller : p.callers[i]? = some c)
    (hdone : c.outcome? = some outcome') {schedule : List Nat}
    (hreturned : (p.play schedule).outcome? i = some outcome) :
    outcome = outcome' ∧ ∀ x ∈ p.strides i schedule, x.2 = x.1 := by
  obtain ⟨hidle, hfinal⟩ := strides_of_outcome? hcaller hdone schedule
  rw [outcome?, hfinal] at hreturned
  exact ⟨Option.some.inj (hreturned.symm.trans hdone), hidle⟩

theorem finish_outcome
    (hcaller : p.callers[i]? = some c) (howes : c.owes = none)
    (hcourse : c.course = .errand (.finish id .completed none) .done) {schedule : List Nat}
    (hreturned : (p.play schedule).outcome? i = some outcome) :
    ∃ before v' idle, p.strides i schedule = ((p.play before).service, v') :: idle ∧
      (∀ x ∈ idle, x.2 = x.1) ∧
      ((∃ err, outcome = .error err ∧ v'.registry.store = (p.play before).store ∧
          (p.play before).service.Hinders .finish c.context id) ∨
        outcome = .ok () ∧ ∃ now, (p.play before).store.Effect (.finish now id .completed none)
          .done v'.registry.store) := by
  have hbusy : c.outcome? = none := by simp only [Caller.outcome?, hcourse]
  obtain ⟨before, after, rfl, hnext, hservice, hstrides⟩ :=
    first_turn_of_outcome? hcaller hbusy hreturned
  rw [play_append, play_cons] at hreturned
  refine ⟨before, _, _, hstrides, ?_⟩
  rw [hservice]
  rcases Caller.turn_of_finish howes hcourse with
    ⟨err, hdone, hstore, hcause⟩ | ⟨hdone, now, heffect⟩
  · obtain ⟨houtcome, hidle⟩ := strides_of_return hnext hdone hreturned
    exact ⟨hidle, .inl ⟨err, houtcome, hstore, hcause⟩⟩
  · obtain ⟨houtcome, hidle⟩ := strides_of_return hnext hdone hreturned
    exact ⟨hidle, .inr ⟨houtcome, now, heffect⟩⟩

end Interplay

open Interplay in
/-- However callers take turns, a completion by hand that returned has taken part in one
of three ways: it reported and ended the open job, or it did nothing, or it reported and
the job was not ended.  All its other turns leave the service alone. -/
theorem completion_by_hand
    {p : Interplay} {i : Nat} {id : Text} {context : Allowance}
    (hcaller : p.callers[i]? = some (.beginning (Routine.completeByHand id) context))
    {schedule : List Nat} {outcome : Except ServiceError Unit}
    (hreturned : (p.play schedule).outcome? i = some outcome) :
    ∃ own idle, p.strides i schedule = own ++ idle ∧ (∀ x ∈ idle, x.2 = x.1) ∧
      ManualCompletion id context outcome own := by
  obtain ⟨before₁, after₁, rfl, hcaller₁, hservice₁, hstrides₁⟩ :=
    first_turn_of_outcome? hcaller rfl hreturned
  rw [play_append, play_cons] at hreturned
  rcases Caller.turn_of_beginning id context (p.play before₁).service with
    ⟨err, hdone, hstore, hcause⟩ | ⟨u, now, howes, hcourse, hpoll, hready, hreport⟩
  · obtain ⟨rfl, hidle⟩ := strides_of_return hcaller₁ hdone hreturned
    refine ⟨[_], _, hstrides₁, hidle, .refused ?_ hcause⟩
    rwa [hservice₁]
  -- The report has been taken; the next turn publishes it, and the one after ends the job.
  obtain ⟨before₂, after₂, rfl, hcaller₂, hservice₂, hstrides₂⟩ :=
    first_turn_of_outcome? hcaller₁ (by simp only [Caller.outcome?, hcourse]) hreturned
  rw [play_append, play_cons] at hreturned
  obtain ⟨hturn, hpublish⟩ := Caller.turn_of_owes howes
    (((p.play before₁).turn i).play before₂).service
  rw [hturn] at hcaller₂
  rw [← hservice₂] at hpublish
  rw [← hservice₁] at hreport
  obtain ⟨before₃, v₃', idle, hstrides₃, hidle, hend⟩ :=
    finish_outcome hcaller₂ rfl hcourse hreturned
  obtain ⟨hholds, hstatus⟩ := Store.holds_of_append hreport
  rw [hstrides₁, hstrides₂, hstrides₃]
  refine ⟨[_, _, _], idle, rfl, hidle, ?_⟩
  rcases hend with ⟨err, rfl, hstore, hcause⟩ | ⟨rfl, now', hfinish⟩
  · exact .abandoned hreport hstatus hpublish hstore hpoll hcause
  · obtain ⟨log, hbetween, -, hadvances⟩ :=
      exists_history ((p.play before₁).turn i) (before₂ ++ i :: before₃)
    rw [play_append, play_cons] at hbetween
    obtain ⟨e, hfind, hcompleted, hkept⟩ :=
      (hholds.history (hreport.isLike.ready hready) hbetween hadvances).finish hfinish
    exact .completed hreport hpublish hbetween hfinish hfind hcompleted hkept

/-! ### A report without completion -/

/-- A pending job that one caller completes by hand while another one analyses a text for
it that cannot be read; so many updates are kept. -/
def besideAnalysis (maxUpdates : Int) (context : Allowance) : Interplay where
  service :=
    { options := ⟨1, 1, false, "work", 1⟩
      oracle := .explicit 100
      registry := ⟨.memory { table := [⟨.new "a" 0, []⟩], maxUpdates }, { now := 0 }, 1⟩ }
  callers := [.beginning (Routine.completeByHand "a") context,
    .beginning (Routine.analyze "a" "") .unlimited]

/-- The status of the job and the kinds of its updates. -/
def Interplay.jobState (p : Interplay) : Option (Status × List Kind) :=
  (p.store.table.find? "a").map fun e => (e.job.status, e.updates.map (·.kind))

/-- The analysis has begun when the job is completed by hand. -/
theorem completion_by_hand_beside_analysis :
    ((besideAnalysis 0 .unlimited).play [1, 1, 0, 1, 0, 0]).outcome? 0 = some (.ok ()) ∧
      ∃ own idle, (besideAnalysis 0 .unlimited).strides 0 [1, 1, 0, 1, 0, 0] = own ++ idle ∧
        ManualCompletion "a" .unlimited (.ok ()) own := by
  have hreturned : ((besideAnalysis 0 .unlimited).play [1, 1, 0, 1, 0, 0]).outcome? 0 =
      some (.ok ()) := by decide +kernel
  obtain ⟨own, idle, hstrides, -, hcompleted⟩ := completion_by_hand rfl hreturned
  exact ⟨hreturned, own, idle, hstrides, hcompleted⟩

/-- Both ways in which a completion by hand is not all or nothing.  It is refused, and its
report stays: the caller's run is cancelled in between, or the analysis ends the job.  And
it succeeds, but its report made room for that of the analysis. -/
theorem completion_by_hand_not_atomic :
    (besideAnalysis 0 ⟨some 1⟩).jobState = some (.pending, []) ∧
      ((besideAnalysis 0 ⟨some 1⟩).play [0, 0, 0]).outcome? 0 = some (.error (.store .cancelled)) ∧
      ((besideAnalysis 0 ⟨some 1⟩).play [0, 0, 0]).jobState = some (.pending, [.success]) ∧
      ((besideAnalysis 0 .unlimited).play [0, 0, 1, 1, 1, 1, 1, 1, 1, 1, 1, 0]).outcome? 0 =
        some (.error (.store (.finished "a"))) ∧
      ((besideAnalysis 0 .unlimited).play [0, 0, 1, 1, 1, 1, 1, 1, 1, 1, 1, 0]).jobState =
        some (.failed, [.success, .error]) ∧
      ((besideAnalysis 1 .unlimited).play [0, 0, 1, 1, 1, 1, 1, 1, 0]).outcome? 0 =
        some (.ok ()) ∧
      ((besideAnalysis 1 .unlimited).play [0, 0, 1, 1, 1, 1, 1, 1, 0]).jobState =
        some (.completed, [.error]) := by
  decide +kernel

end Population
