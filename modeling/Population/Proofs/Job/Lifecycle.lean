import Population.Proofs.Job.Accounts

/-!
# The life of a job in memory

Whatever any number of clients call, a job is created pending, may be marked as
running, and ends once, as completed or as failed; from then on nothing about it
changes until it is evicted.  A call about one job leaves the others alone, and a
refused call leaves everything alone.
-/

namespace Population

/-- How the status of a job moves on. -/
inductive Status.Advances : Status → Status → Prop
  | start : Advances .pending .running
  | finish {before after : Status} (hbefore : before = .pending ∨ before = .running)
      (hafter : after = .completed ∨ after = .failed) : Advances before after

theorem Status.eq_of_isTerminal {status : Status} (h : status.isTerminal = true) :
    status = .completed ∨ status = .failed := by
  cases status <;> simp_all [isTerminal]

/-- The job ended before a time. -/
def Job.EndedBefore (j : Job) (cutoff : Int) : Prop :=
  j.status.isTerminal = true ∧ ∃ t, j.finished = some t ∧ t < cutoff

theorem MemoryStore.isExpired_iff {cutoff : Int} {j : Job} :
    isExpired cutoff j = true ↔ j.EndedBefore cutoff := by
  unfold isExpired Job.EndedBefore
  cases j.finished <;> simp

namespace Store

/-! ## One call -/

/-- What becomes of one job by a call that is not refused. -/
inductive Fate (s : Store) (c : Call Int) (id : Text) : Option JobEntry → Prop
  | same : Fate s c id (s.table.find? id)
  | born {now : Int} (hcall : c = .create now id) (hnone : s.table.find? id = none) :
      Fate s c id (some (s.newEntry now id))
  | changed {e e' : JobEntry} (hsubject : c.subject? = some id)
      (hfind : s.table.find? id = some e) (hopen : e.job.status.isTerminal = false)
      (hstatus : e'.job.status = e.job.status ∨ e.job.status.Advances e'.job.status) :
      Fate s c id (some e')
  | evicted {cutoff : Int} {e : JobEntry} (hcall : c = .evict cutoff)
      (hfind : s.table.find? id = some e) (hexpires : s.expires cutoff e.job = true) :
      Fate s c id none

section Fate

variable {log : Log} {s s' : Store} {c : Call Int} {a : Answer}

theorem Accounts.open_stage
    (h : Accounts log s) {id : Text} {e : JobEntry} (hfind : s.table.find? id = some e)
    (hopen : e.job.status.isTerminal = false) :
    e.job.status = .pending ∨ e.job.status = .running := by
  have hstage := (h.explains_of_find? hfind).stage
  cases hstatus : e.job.status <;> simp_all [Status.isTerminal]

/-- Where one entry is put in place of another, the other jobs stay. -/
theorem fate_replace
    {id : Text} {e : JobEntry} (e' : JobEntry) (hsubject : c.subject? = some id)
    (hfind : s.table.find? id = some e) (hid : e'.job.id = id)
    (hopen : e.job.status.isTerminal = false)
    (hstatus : e'.job.status = e.job.status ∨ e.job.status.Advances e'.job.status)
    (other : Text) : s.Fate c other ((s.table.replace e').find? other) := by
  rw [JobTable.find?_replace_eq hfind hid]
  split
  next heq =>
    subst heq
    exact .changed hsubject hfind hopen hstatus
  next => exact .same

theorem Effect.fate
    (h : s.Effect c a s') (haccounts : Accounts log s)
    (hfresh : ∀ now id, c = .create now id → id ∉ log.created) (id : Text) :
    s.Fate c id (s'.table.find? id) := by
  cases h with
  | create now new =>
      have hnone : s.table.find? new = none := by
        rw [JobTable.find?_eq_none_iff]
        intro hmem
        obtain ⟨e, he, rfl⟩ := List.mem_map.mp hmem
        exact hfresh now _ rfl (haccounts.created e he)
      rw [table_withTable, JobTable.find?_append_eq hnone rfl]
      split
      next heq =>
        subst heq
        exact .born rfl hnone
      next => exact .same
  | @start now started e hopen =>
      obtain ⟨hfind, hrunning⟩ := JobTable.of_open?_eq_ok hopen
      have hid := JobTable.id_of_find? hfind
      rw [table_withTable]
      refine fate_replace (s.startedEntry now e) rfl hfind hid hrunning ?_ id
      rcases haccounts.open_stage hfind hrunning with hpending | hstarted
      · exact .inr (hpending ▸ .start)
      · exact .inl hstarted.symm
  | @append now extended e kind message hopen =>
      obtain ⟨hfind, hrunning⟩ := JobTable.of_open?_eq_ok hopen
      have hid := JobTable.id_of_find? hfind
      rw [table_withTable]
      exact fate_replace (s.longerEntry now kind message e) rfl hfind hid hrunning (.inl rfl) id
  | @finish now ended e status result hstatus hopen =>
      obtain ⟨hfind, hrunning⟩ := JobTable.of_open?_eq_ok hopen
      have hid := JobTable.id_of_find? hfind
      rw [table_withTable]
      refine fate_replace (s.endedEntry now status result e) rfl hfind hid hrunning (.inr ?_) id
      exact .finish (haccounts.open_stage hfind hrunning) (Status.eq_of_isTerminal hstatus)
  | get hfind => exact .same
  | updates since hfind => exact .same
  | evict cutoff =>
      rw [table_withTable, JobTable.find?_filter haccounts.distinct]
      have hsame : s.Fate (.evict cutoff) id (s.table.find? id) := .same
      cases hfind : s.table.find? id with
      | none => simpa [hfind] using hsame
      | some e =>
          cases hexpires : s.expires cutoff e.job with
          | false => simpa [hfind, hexpires, Option.filter_some] using hsame
          | true => simpa [hexpires, Option.filter_some] using .evicted rfl hfind hexpires

/-- Every job stays as it is, or what the call does to it is lawful. -/
theorem Accounts.fate
    (h : Accounts log s) (hready : s.IsReady) (r : Request)
    (hfresh : (Log.created (log ++ [⟨r, (s.respond r).1⟩])).Nodup) (id : Text) :
    s.Fate r.call id ((s.respond r).2.table.find? id) := by
  rcases respond_cases hready r with ⟨err, hrespond⟩ | ⟨a, s', hrespond, heffect⟩
  · rw [hrespond]
    exact .same
  rw [hrespond] at hfresh ⊢
  refine heffect.fate h ?_ id
  intro now new hcall hmem
  have hx : Exchange.created? ⟨r, .ok a⟩ = some new := by simp [Exchange.created?, hcall]
  rw [Log.created_concat_of_some hx, List.nodup_append] at hfresh
  exact hfresh.2.2 new hmem new (List.mem_singleton_self _) rfl

/-- A job that was not there before was created. -/
theorem Fate.exists_create
    {id : Text} {e' : JobEntry} (h : s.Fate c id (some e')) (hnone : s.table.find? id = none) :
    ∃ now, c = .create now id ∧ e' = s.newEntry now id := by
  generalize hentry : some e' = entry at h
  cases h with
  | same =>
      rw [hnone] at hentry
      cases hentry
  | @born now hcall =>
      cases hentry
      exact ⟨now, hcall, rfl⟩
  | changed _ hfind =>
      rw [hnone] at hfind
      cases hfind
  | evicted => cases hentry

/-- A job that was there before and still is has the status it had, or a later one. -/
theorem Fate.status
    {id : Text} {e e' : JobEntry} (h : s.Fate c id (some e')) (hfind : s.table.find? id = some e) :
    e'.job.status = e.job.status ∨ e.job.status.Advances e'.job.status := by
  generalize hentry : some e' = entry at h
  cases h with
  | same =>
      rw [hfind] at hentry
      cases hentry
      exact .inl rfl
  | born _ hnone =>
      rw [hnone] at hfind
      cases hfind
  | changed _ hfind' _ hstatus =>
      cases hentry
      rw [hfind] at hfind'
      cases hfind'
      exact hstatus
  | evicted => cases hentry

/-- A call about another job leaves a job alone. -/
theorem Fate.eq_of_ne
    {id other : Text} {entry : Option JobEntry} (h : s.Fate c other entry)
    (hsubject : c.subject? = some id) (hne : other ≠ id) : entry = s.table.find? other := by
  cases h with
  | same => rfl
  | born hcall =>
      rw [hcall] at hsubject
      exact absurd (Option.some.inj hsubject) hne
  | changed hsubject' =>
      rw [hsubject] at hsubject'
      exact absurd (Option.some.inj hsubject').symm hne
  | evicted hcall =>
      rw [hcall] at hsubject
      cases hsubject

end Fate

/-- What a call may do to the jobs of a store in memory. -/
structure Lawful (s : Store) (r : Request) : Prop where
  /-- A refused call changes nothing at all. -/
  refused : ∀ e, (s.respond r).1 = .error e → (s.respond r).2 = s
  /-- An update that is added says what the caller said, at the time of the call. -/
  recorded : ∀ now id kind message u, r.call = .append now id kind message →
    (s.respond r).1 = .ok (.update u) → u.kind = kind ∧ u.message = message ∧ u.time = now
  /-- Only creation brings up a job, and the job is pending. -/
  born : ∀ id e', s.table.find? id = none → (s.respond r).2.table.find? id = some e' →
    ∃ now, r.call = .create now id ∧ e' = ⟨.new id now, []⟩
  /-- The status of a job stays or moves on. -/
  advances : ∀ id e e', s.table.find? id = some e → (s.respond r).2.table.find? id = some e' →
    e'.job.status = e.job.status ∨ e.job.status.Advances e'.job.status
  /-- A call about a job leaves the others alone. -/
  others : ∀ id, r.call.subject? = some id → ∀ other ≠ id,
    (s.respond r).2.table.find? other = s.table.find? other
  /-- Eviction removes and counts the jobs that ended before the time. -/
  evicts : ∀ cutoff, r = ⟨true, .evict cutoff⟩ → ∃ n, (s.respond r).1 = .ok (.evicted n) ∧
    (s.respond r).2.table.length + n = s.table.length ∧
    ∀ id e, s.table.find? id = some e →
      (e.job.EndedBefore cutoff → (s.respond r).2.table.find? id = none) ∧
      (¬e.job.EndedBefore cutoff → (s.respond r).2.table.find? id = some e)

section Lawful

variable {log : Log} {m : MemoryStore}

/-- Eviction is never refused to a caller who may go on. -/
theorem respond_evict (m : MemoryStore) (cutoff : Int) :
    (memory m).respond ⟨true, .evict cutoff⟩ =
      (.ok (.evicted (m.table.countP fun e => MemoryStore.isExpired cutoff e.job)),
        memory { m with
          table := m.table.filter fun e => !MemoryStore.isExpired cutoff e.job }) :=
  rfl

theorem length_filter_not_add_countP (t : JobTable) (p : JobEntry → Bool) :
    (t.filter fun e => !p e).length + t.countP p = t.length := by
  rw [List.countP_eq_length_filter, Nat.add_comm]
  exact (List.length_eq_length_filter_add p).symm

theorem find?_evicted
    (h : Accounts log (memory m)) (cutoff : Int) {id : Text} {e : JobEntry}
    (hfind : m.table.find? id = some e) :
    JobTable.find? (m.table.filter fun e => !MemoryStore.isExpired cutoff e.job) id =
      if MemoryStore.isExpired cutoff e.job then none else some e := by
  have hdistinct : (m.table.map (·.job.id)).Nodup := h.distinct
  rw [JobTable.find?_filter hdistinct, hfind, Option.filter_some]
  cases MemoryStore.isExpired cutoff e.job <;> rfl

theorem Accounts.lawful
    (h : Accounts log (memory m)) (r : Request)
    (hfresh : (Log.created (log ++ [⟨r, ((memory m).respond r).1⟩])).Nodup) :
    (memory m).Lawful r := by
  have hfate := h.fate trivial r hfresh
  constructor
  case refused => exact fun e herror => congrArg Prod.snd (respond_of_error herror)
  case recorded =>
    intro now id kind message u hcall hanswer
    rcases respond_cases (s := memory m) trivial r with ⟨err, hrespond⟩ | ⟨a, s', hrespond, heffect⟩
    · rw [hrespond] at hanswer
      cases hanswer
    · rw [hrespond] at hanswer
      cases hanswer
      rw [hcall] at heffect
      cases heffect
      exact ⟨rfl, rfl, rfl⟩
  case born =>
    intro id e' hnone hafter
    have hid := hfate id
    rw [hafter] at hid
    exact hid.exists_create hnone
  case advances =>
    intro id e e' hbefore hafter
    have hid := hfate id
    rw [hafter] at hid
    exact hid.status hbefore
  case others => exact fun id hsubject other hne => (hfate other).eq_of_ne hsubject hne
  case evicts =>
    rintro cutoff rfl
    rw [respond_evict]
    refine ⟨_, rfl, length_filter_not_add_countP m.table _, ?_⟩
    intro id e hfind
    have hfound := find?_evicted h cutoff hfind
    rw [← MemoryStore.isExpired_iff]
    constructor
    · intro hexpired
      rwa [if_pos hexpired] at hfound
    · intro hexpired
      rwa [if_neg hexpired] at hfound

end Lawful

/-! ## Whole lives -/

/-- Some exchange evicted the job. -/
def Log.Evicts (log : Log) (j : Job) : Prop :=
  ∃ x ∈ log, ∃ cutoff n,
    x.request.call = .evict cutoff ∧ x.answer = .ok (.evicted n) ∧ j.EndedBefore cutoff

theorem Log.Evicts.append
    {log : Log} {j : Job} (h : log.Evicts j) (log' : Log) : Log.Evicts (log ++ log') j := by
  obtain ⟨x, hx, hevicts⟩ := h
  exact ⟨x, List.mem_append_left _ hx, hevicts⟩

/-- One call leaves an ended job as it is, or evicts it. -/
theorem Accounts.ended_step
    {log : Log} {m : MemoryStore} (h : Accounts log (memory m)) (r : Request)
    (hfresh : (Log.created (log ++ [⟨r, ((memory m).respond r).1⟩])).Nodup)
    {id : Text} {e : JobEntry} (hfind : m.table.find? id = some e)
    (hended : e.job.status.isTerminal = true) :
    ((memory m).respond r).2.table.find? id = some e ∨
      ((memory m).respond r).2.table.find? id = none ∧
        Log.Evicts [⟨r, ((memory m).respond r).1⟩] e.job := by
  have hfind : (memory m).table.find? id = some e := hfind
  rcases respond_cases (s := memory m) trivial r with ⟨err, hrespond⟩ | ⟨a, s', hrespond, heffect⟩
  · rw [hrespond]
    exact .inl hfind
  have hid := h.fate trivial r hfresh id
  rw [hrespond] at hid ⊢
  generalize s'.table.find? id = entry at hid
  cases hid with
  | same => exact .inl hfind
  | born _ hnone =>
      rw [hnone] at hfind
      cases hfind
  | changed _ hfind' hopen =>
      rw [hfind] at hfind'
      cases hfind'
      rw [hended] at hopen
      cases hopen
  | @evicted cutoff _ hcall hfind' hexpires =>
      rw [hfind] at hfind'
      cases hfind'
      rw [hcall] at heffect
      cases heffect with
      | evict =>
          exact .inr ⟨rfl, _, List.mem_singleton_self _, cutoff, _, hcall, rfl,
            MemoryStore.isExpired_iff.mp hexpires⟩

/-- A job that is gone does not come back. -/
theorem Accounts.gone_step
    {log : Log} {s : Store} (h : Accounts log s) (hready : s.IsReady) (r : Request)
    (hfresh : (Log.created (log ++ [⟨r, (s.respond r).1⟩])).Nodup)
    {id : Text} (hcreated : id ∈ log.created) (hgone : s.table.find? id = none) :
    (s.respond r).2.table.find? id = none := by
  rcases respond_cases hready r with ⟨err, hrespond⟩ | ⟨a, s', hrespond, heffect⟩
  · rw [hrespond]
    exact hgone
  have hid := h.fate hready r hfresh id
  rw [hrespond] at hid hfresh ⊢
  generalize s'.table.find? id = entry at hid
  cases hid with
  | same => exact hgone
  | born hcall =>
      have hx : Exchange.created? ⟨r, .ok a⟩ = some id := by simp [Exchange.created?, hcall]
      rw [Log.created_concat_of_some hx, List.nodup_append] at hfresh
      exact absurd rfl (hfresh.2.2 id hcreated id (List.mem_singleton_self _))
  | changed _ hfind =>
      rw [hgone] at hfind
      cases hfind
  | evicted => rfl

/-- An ended job stays as it is until it is evicted, and it does not come back. -/
theorem History.ended_stands
    {log later : Log} {m₀ m : MemoryStore} {s' : Store}
    (hlater : History (memory m) later s')
    (hlog : History (memory m₀) log (memory m)) (hempty : (memory m₀).IsEmpty)
    (hfresh : (Log.created (log ++ later)).Nodup)
    {id : Text} {e : JobEntry} (hfind : m.table.find? id = some e)
    (hended : e.job.status.isTerminal = true) :
    s'.table.find? id = some e ∨ s'.table.find? id = none ∧ later.Evicts e.job := by
  induction hlater with
  | start => exact .inl hfind
  | @call later s hlater r ih =>
      rw [← List.append_assoc] at hfresh
      have hearlier := Log.nodup_created_of_append hfresh
      have hwhole := hlog.append hlater
      have haccounts := hwhole.accounts hempty trivial hearlier
      obtain ⟨m', rfl, -⟩ := hwhole.exists_memory
      rcases ih hearlier with hstands | ⟨hgone, hevicts⟩
      · rcases haccounts.ended_step r hfresh hstands hended with hfound | ⟨hnone, hevicts⟩
        · exact .inl hfound
        · obtain ⟨x, hx, hevicts⟩ := hevicts
          exact .inr ⟨hnone, x, List.mem_append_right _ hx, hevicts⟩
      · have hborn : id ∈ Log.created (log ++ later) := by
          have hfirst := hlog.accounts hempty trivial (Log.nodup_created_of_append hearlier)
          rw [Log.created_append]
          exact List.mem_append_left _ (hfirst.created_of_find? hfind)
        exact .inr ⟨haccounts.gone_step trivial r hfresh hborn hgone, hevicts.append _⟩

/-- The life of every job, whatever is called: updates are numbered upwards through
the whole store, a job keeps the last updates that were added to it and the time at
which it was ended, every further call is lawful, and ended jobs stand. -/
theorem memory_lifecycle
    (maxUpdates : Int) {log : Log} {s : Store} (h : History (memory { maxUpdates }) log s)
    (hfresh : log.created.Nodup) :
    (log.appends.map (·.2.seq)).Pairwise (· < ·) ∧
      (∀ id e, s.table.find? id = some e →
        (e.updates = if 0 < maxUpdates then (log.appended id).rtake maxUpdates.toNat
          else log.appended id) ∧
        e.job.finished.toList = log.finishes id ∧
        e.job.status.isTerminal = e.job.finished.isSome) ∧
      (∀ r, (Log.created (log ++ [⟨r, (s.respond r).1⟩])).Nodup → s.Lawful r) ∧
      ∀ later s', History s later s' → (Log.created (log ++ later)).Nodup →
        ∀ id e, s.table.find? id = some e → e.job.status.isTerminal = true →
          s'.table.find? id = some e ∨ s'.table.find? id = none ∧ later.Evicts e.job := by
  have haccounts := h.accounts rfl trivial hfresh
  obtain ⟨m, rfl, hmax⟩ := h.exists_memory
  refine ⟨haccounts.numbered.1, ?_, fun r hr => haccounts.lawful r hr, ?_⟩
  · intro id e hfind
    have hexplains := haccounts.explains_of_find? hfind
    have hupdates := hexplains.updates
    have hfinished := hexplains.finished
    rw [JobTable.id_of_find? hfind] at hupdates hfinished
    refine ⟨?_, ?_, hexplains.ended⟩
    · rw [hupdates, kept, hmax]
    · exact hfinished.trans (List.map_id _)
  · intro later s' hlater hlaterFresh id e hfind hended
    exact hlater.ended_stands h rfl hlaterFresh hfind hended

/-- With room for one update, a job that got two between those of another keeps the
second one, and may be evicted when it has ended. -/
theorem memory_lifecycle_one_kept :
    ∃ log s, History (memory { maxUpdates := 1 }) log s ∧ log.created.Nodup ∧
      log.appended "a" = [⟨1, .info, "x", 3⟩, ⟨3, .success, "z", 6⟩] ∧ log.finishes "a" = [7] ∧
      ∃ e, s.table.find? "a" = some e ∧ e.updates = [⟨3, .success, "z", 6⟩] ∧
        e.job.finished.toList = [7] ∧ e.job.status.isTerminal = true ∧
        s.Lawful ⟨true, .evict 8⟩ := by
  let s₀ : Store := memory { maxUpdates := 1 }
  have hlog : History s₀ _ _ :=
    (((((History.start.call ⟨true, .create 1 "a"⟩).call ⟨true, .create 2 "b"⟩).call
      ⟨true, .append 3 "a" .info "x"⟩).call ⟨true, .append 4 "b" .info "y"⟩).call
      ⟨true, .append 6 "a" .success "z"⟩).call ⟨true, .finish 7 "a" .completed none⟩
  refine ⟨_, _, hlog, by decide, rfl, rfl, _, rfl, ?_⟩
  obtain ⟨-, hkept, hlawful, -⟩ := memory_lifecycle 1 hlog (by decide)
  obtain ⟨hupdates, hfinished, hended⟩ := hkept "a" _ rfl
  exact ⟨hupdates, hfinished, hended, hlawful _ (by decide)⟩

end Store

end Population
