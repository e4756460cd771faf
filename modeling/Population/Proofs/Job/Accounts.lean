import Population.Proofs.Job.History
import Mathlib.Data.List.DropRight

/-!
# What a log tells about its store

The log of all calls accounts for what the store holds: which updates a job has,
when it was ended, and how updates are numbered.  A store in memory keeps of the
updates that were added to a job as many of the last ones as it has room for; a
durable store keeps them all.  The invariant is kept by every call as long as no
identifier is used for two jobs.
-/

namespace Population.Store

/-! ## Updates that are kept -/

/-- Of all updates that were added to a job, those that the store keeps. -/
def kept (s : Store) (us : List Progress) : List Progress :=
  match s with
  | memory m => if 0 < m.maxUpdates then us.rtake m.maxUpdates.toNat else us
  | durable _ => us

theorem IsLike.kept {s s' : Store} (h : s.IsLike s') : s.kept = s'.kept := by
  cases s <;> cases s' <;> simp_all [IsLike] <;> funext us <;> simp_all [Store.kept]

theorem kept_suffix (s : Store) (us : List Progress) : s.kept us <:+ us := by
  cases s with
  | memory m =>
      simp only [kept]
      split
      · exact List.drop_suffix _ _
      · exact List.suffix_rfl
  | durable d => exact List.suffix_rfl

/-- The store drops no updates. -/
def IsUnlimited : Store → Prop
  | memory m => m.maxUpdates ≤ 0
  | durable _ => True

theorem IsUnlimited.kept {s : Store} (h : s.IsUnlimited) (us : List Progress) : s.kept us = us := by
  cases s with
  | memory m => exact if_neg (Int.not_lt.mpr h)
  | durable d => rfl

/-- Dropping the oldest update when there is no room leaves the last ones. -/
theorem push_rtake (us : List Progress) (u : Progress) {max : Int} (hmax : 0 < max) :
    MemoryStore.push max (us.rtake max.toNat) u = (us ++ [u]).rtake max.toNat := by
  obtain ⟨n, rfl⟩ : ∃ n : Nat, max = n + 1 := ⟨max.toNat - 1, by omega⟩
  have hn : ((n : Int) + 1).toNat = n + 1 := by omega
  rw [hn, List.rtake_concat_succ, MemoryStore.push]
  congr 1
  have hlength : (us.rtake (n + 1)).length = min us.length (n + 1) := by
    rw [List.rtake, List.length_drop]
    omega
  by_cases hfull : n + 1 ≤ us.length
  · rw [if_pos ⟨hmax, by omega⟩, List.rtake, List.rtake, List.tail_drop]
    congr 1
    omega
  · rw [if_neg (by omega), List.rtake, List.rtake]
    congr 1
    omega

theorem pushed_kept (s : Store) (us : List Progress) (u : Progress) :
    s.pushed (s.kept us) u = s.kept (us ++ [u]) := by
  cases s with
  | memory m =>
      simp only [pushed, kept]
      split
      next hmax => exact push_rtake us u hmax
      next hmax => simp [MemoryStore.push, hmax]
  | durable d => rfl

/-! ## Numbers of updates -/

/-- How a store numbers updates: one in memory by a counter for all jobs, a durable
one for each job from one. -/
def Numbered : Store → Log → Prop
  | memory m, log =>
    (log.appends.map (·.2.seq)).Pairwise (· < ·) ∧ ∀ p ∈ log.appends, 0 < p.2.seq ∧ p.2.seq ≤ m.seq
  | durable _, log =>
    ∀ id, (log.appended id).map (·.seq) =
      (List.range (log.appended id).length).map fun (i : Nat) => (i + 1 : Int)

theorem appended_sublist (log : Log) (id : Text) :
    (log.appended id).Sublist (log.appends.map Prod.snd) :=
  List.filter_sublist.map _

/-- The numbers of a job's updates grow from one on. -/
theorem Numbered.ascending {s : Store} {log : Log} (h : s.Numbered log) (id : Text) :
    ((log.appended id).map (·.seq)).Pairwise (· < ·) ∧ ∀ u ∈ log.appended id, 0 < u.seq := by
  cases s with
  | memory m =>
      obtain ⟨hascending, hbounds⟩ := h
      refine ⟨?_, ?_⟩
      · have hsub := (appended_sublist log id).map (·.seq)
        rw [List.map_map] at hsub
        exact hascending.sublist hsub
      · intro u hu
        obtain ⟨p, hp, rfl⟩ := List.mem_map.mp ((appended_sublist log id).subset hu)
        exact (hbounds p hp).1
  | durable d =>
      have hnumbers := h id
      refine ⟨?_, ?_⟩
      · rw [hnumbers, List.pairwise_map]
        exact List.pairwise_lt_range.imp fun hlt => by omega
      · intro u hu
        have hmem : u.seq ∈ (log.appended id).map (·.seq) := List.mem_map_of_mem hu
        rw [hnumbers] at hmem
        obtain ⟨i, -, hi⟩ := List.mem_map.mp hmem
        omega

theorem lastSeq_append (us : List Progress) (u : Progress) :
    DurableStore.lastSeq (us ++ [u]) = max (DurableStore.lastSeq us) u.seq := by
  simp [DurableStore.lastSeq]

/-- The largest of the numbers from one on is their count. -/
theorem lastSeq_of_numbered {us : List Progress}
    (h : us.map (·.seq) = (List.range us.length).map fun (i : Nat) => (i + 1 : Int)) :
    DurableStore.lastSeq us = us.length := by
  induction us using List.reverseRecOn with
  | nil => rfl
  | append_singleton us u ih =>
      rw [List.map_append, List.length_append, List.length_singleton, List.range_succ,
        List.map_append] at h
      obtain ⟨hinit, hlast⟩ := List.append_inj h (by simp)
      have hu : u.seq = us.length + 1 := by simpa using hlast
      rw [lastSeq_append, ih hinit, hu, List.length_append, List.length_singleton]
      omega

/-! ## The account -/

/-- The log tells what is stored for a job. -/
structure Explains (s : Store) (log : Log) (e : JobEntry) : Prop where
  updates : e.updates = s.kept (log.appended e.job.id)
  finished : e.job.finished.toList = (log.finishes e.job.id).map s.dated
  ended : e.job.status.isTerminal = e.job.finished.isSome
  stage : e.job.status ∈ [Status.pending, .running, .completed, .failed]

theorem Explains.congr
    {s s' : Store} {log log' : Log} {e : JobEntry} (h : s.Explains log e) (hlike : s'.IsLike s)
    (happended : log'.appended e.job.id = log.appended e.job.id)
    (hfinishes : log'.finishes e.job.id = log.finishes e.job.id) : s'.Explains log' e where
  updates := by rw [happended, hlike.kept, h.updates]
  finished := by rw [hfinishes, hlike.dated, h.finished]
  ended := h.ended
  stage := h.stage

/-- The log accounts for the store. -/
structure Accounts (log : Log) (s : Store) : Prop where
  distinct : (s.table.map (·.job.id)).Nodup
  created : ∀ e ∈ s.table, e.job.id ∈ log.created
  unborn : ∀ id ∉ log.created, log.appended id = [] ∧ log.finishes id = []
  numbered : s.Numbered log
  explains : ∀ e ∈ s.table, s.Explains log e

theorem Accounts.explains_of_find?
    {log : Log} {s : Store} (h : Accounts log s) {id : Text} {e : JobEntry}
    (hfind : s.table.find? id = some e) : s.Explains log e :=
  h.explains e (JobTable.mem_of_find? hfind)

theorem Accounts.created_of_find?
    {log : Log} {s : Store} (h : Accounts log s) {id : Text} {e : JobEntry}
    (hfind : s.table.find? id = some e) : id ∈ log.created := by
  rw [← JobTable.id_of_find? hfind]
  exact h.created e (JobTable.mem_of_find? hfind)

/-- An empty store, in memory or durable. -/
def IsEmpty (s : Store) : Prop :=
  s.table = []

theorem accounts_start {s : Store} (hempty : s.IsEmpty) : Accounts [] s where
  distinct := by simp [show s.table = [] from hempty]
  created := by simp [show s.table = [] from hempty]
  unborn := fun _ _ => ⟨rfl, rfl⟩
  numbered := by
    cases s with
    | memory m => exact ⟨.nil, by simp [Log.appends]⟩
    | durable d => exact fun _ => rfl
  explains := by simp [show s.table = [] from hempty]

/-! ## Calls -/

section Step

variable {log : Log} {s s' : Store} {x : Exchange} {id : Text} {e : JobEntry}

/-- Only the counter of a store in memory and the log of added updates matter. -/
theorem Numbered.congr
    (h : s.Numbered log) (t : JobTable) {log' : Log} (happends : log'.appends = log.appends) :
    (s.withTable t).Numbered log' := by
  cases s with
  | memory m => simpa [Numbered, withTable, happends] using h
  | durable d => simpa [Numbered, withTable, Log.appended, happends] using h

theorem withTable_isLike (s : Store) (t : JobTable) : (s.withTable t).IsLike s := by
  cases s with
  | memory m => rfl
  | durable d => exact ⟨rfl, rfl⟩

/-- A new job is pending and has no updates. -/
theorem Accounts.added
    (h : Accounts log s) (now : Int) (hx : x.created? = some id) (happended : x.appended? = none)
    (hfinished : x.finished? = none) (hfresh : id ∉ log.created) :
    Accounts (log ++ [x]) (s.withTable (s.table ++ [s.newEntry now id])) := by
  have hcreated : Log.created (log ++ [x]) = log.created ++ [id] := Log.created_concat_of_some hx
  have hupdates : ∀ id, Log.appended (log ++ [x]) id = log.appended id :=
    Log.appended_concat_of_none happended
  have hends : ∀ id, Log.finishes (log ++ [x]) id = log.finishes id :=
    Log.finishes_concat_of_none hfinished
  refine ⟨?_, ?_, ?_, h.numbered.congr _ (Log.appends_concat_of_none happended), ?_⟩
  · rw [table_withTable, List.map_append, List.map_singleton, List.nodup_append]
    refine ⟨h.distinct, by simp, ?_⟩
    intro id₁ hmem id₂ hnew heq
    obtain ⟨e, he, rfl⟩ := List.mem_map.mp hmem
    have hnew : id₂ = id := List.mem_singleton.mp hnew
    rw [hnew] at heq
    exact hfresh (heq ▸ h.created e he)
  · intro e he
    rw [table_withTable, List.mem_append, List.mem_singleton] at he
    rw [hcreated, List.mem_append, List.mem_singleton]
    rcases he with he | rfl
    · exact .inl (h.created e he)
    · exact .inr rfl
  · intro id' hid'
    rw [hcreated, List.mem_append, not_or] at hid'
    rw [hupdates, hends]
    exact h.unborn id' hid'.1
  · intro e he
    rw [table_withTable, List.mem_append, List.mem_singleton] at he
    rcases he with he | rfl
    · exact (h.explains e he).congr (withTable_isLike s _) (hupdates _) (hends _)
    · have hid : (s.newEntry now id).job.id = id := rfl
      obtain ⟨hnone, hnever⟩ := h.unborn id hfresh
      refine ⟨?_, ?_, rfl, List.mem_cons_self⟩
      · rw [hid, hupdates, hnone]
        exact (List.suffix_nil.mp (kept_suffix _ [])).symm
      · rw [hid, hends, hnever]
        rfl

/-- Another entry is put in place of a job's entry. -/
theorem Accounts.replaced
    (h : Accounts log s) (hfind : s.table.find? id = some e) (e' : JobEntry) (hid : e'.job.id = id)
    (hcreated : x.created? = none)
    (hothers : ∀ id' ≠ id, Log.appended (log ++ [x]) id' = log.appended id' ∧
      Log.finishes (log ++ [x]) id' = log.finishes id')
    (htable : s'.table = s.table.replace e') (hlike : s'.IsLike s)
    (hnumbered : s'.Numbered (log ++ [x])) (hexplains : s'.Explains (log ++ [x]) e') :
    Accounts (log ++ [x]) s' := by
  have hborn : id ∈ log.created := h.created_of_find? hfind
  have hcreated : Log.created (log ++ [x]) = log.created := Log.created_concat_of_none hcreated
  refine ⟨?_, ?_, ?_, hnumbered, ?_⟩
  · rw [htable, JobTable.ids_replace]
    exact h.distinct
  · intro y hy
    rw [htable] at hy
    rw [hcreated]
    rcases JobTable.mem_replace hy with rfl | ⟨hy, -⟩
    · exact hid ▸ hborn
    · exact h.created y hy
  · intro id' hid'
    rw [hcreated] at hid'
    have hne : id' ≠ id := fun heq => hid' (heq ▸ hborn)
    rw [(hothers id' hne).1, (hothers id' hne).2]
    exact h.unborn id' hid'
  · intro y hy
    rw [htable] at hy
    rcases JobTable.mem_replace hy with rfl | ⟨hy, hne⟩
    · exact hexplains
    · obtain ⟨happended, hfinishes⟩ := hothers y.job.id (hid ▸ hne)
      exact (h.explains y hy).congr hlike happended hfinishes

/-- Jobs are removed, or nothing happens. -/
theorem Accounts.removed
    (h : Accounts log s) (hcreated : x.created? = none) (happended : x.appended? = none)
    (hfinished : x.finished? = none) (p : JobEntry → Bool) :
    Accounts (log ++ [x]) (s.withTable (s.table.filter p)) := by
  have hcreated : Log.created (log ++ [x]) = log.created := Log.created_concat_of_none hcreated
  have hupdates : ∀ id, Log.appended (log ++ [x]) id = log.appended id :=
    Log.appended_concat_of_none happended
  have hends : ∀ id, Log.finishes (log ++ [x]) id = log.finishes id :=
    Log.finishes_concat_of_none hfinished
  refine ⟨?_, ?_, ?_, h.numbered.congr _ (Log.appends_concat_of_none happended), ?_⟩
  · rw [table_withTable]
    exact h.distinct.sublist (List.filter_sublist.map _)
  · intro e he
    rw [table_withTable] at he
    rw [hcreated]
    exact h.created e (List.mem_filter.mp he).1
  · intro id hid
    rw [hcreated] at hid
    rw [hupdates, hends]
    exact h.unborn id hid
  · intro e he
    rw [table_withTable] at he
    exact (h.explains e (List.mem_filter.mp he).1).congr (withTable_isLike s _) (hupdates _)
      (hends _)

theorem Accounts.quiet
    (h : Accounts log s) (hcreated : x.created? = none) (happended : x.appended? = none)
    (hfinished : x.finished? = none) : Accounts (log ++ [x]) s := by
  have hsame : s.withTable (s.table.filter fun _ => true) = s := by
    rw [List.filter_true]
    cases s <;> rfl
  have hremoved := h.removed hcreated happended hfinished fun _ => true
  rwa [hsame] at hremoved

/-- The number of an added update exceeds the earlier ones. -/
theorem Numbered.append
    {now : Int} {kind : Kind} {message : Text} (t : JobTable) (h : s.Numbered log)
    (hupdates : e.updates = s.kept (log.appended id))
    (hx : x.appended? = some (id, s.newUpdate e.updates now kind message)) :
    (s.counted.withTable t).Numbered (log ++ [x]) := by
  cases s with
  | memory m =>
      obtain ⟨hascending, hbounds⟩ := h
      have hseq : ((memory m).newUpdate e.updates now kind message).seq = m.seq + 1 := rfl
      have hcount : ((m.seq + 1 : Nat) : Int) = m.seq + 1 := by omega
      simp only [counted, withTable, Numbered, Log.appends_concat_of_some hx, hcount]
      refine ⟨?_, ?_⟩
      · rw [List.map_append, List.pairwise_append]
        refine ⟨hascending, List.pairwise_singleton _ _, ?_⟩
        intro n hn n' hn'
        obtain ⟨p, hp, rfl⟩ := List.mem_map.mp hn
        have hle := (hbounds p hp).2
        rw [List.map_singleton, List.mem_singleton, hseq] at hn'
        omega
      · intro p hp
        rw [List.mem_append, List.mem_singleton] at hp
        rcases hp with hp | rfl
        · have hle := hbounds p hp
          omega
        · rw [hseq]
          omega
  | durable d =>
      intro id'
      by_cases hid : id = id'
      · subst hid
        have hseq : ((durable d).newUpdate e.updates now kind message).seq =
            (log.appended id).length + 1 := by
          have hlast := lastSeq_of_numbered (h id)
          rw [← show e.updates = log.appended id from hupdates] at hlast ⊢
          exact congrArg (· + 1) hlast
        rw [Log.appended_concat_of_some hx, List.map_append, h id, List.length_append,
          List.length_singleton, List.range_succ, List.map_append, List.map_singleton,
          List.map_singleton, hseq]
      · rw [Log.appended_concat_of_ne hx hid]
        exact h id'

/-- Every call keeps the account. -/
theorem Accounts.step
    (h : Accounts log s) (hready : s.IsReady) (r : Request)
    (hfresh : (Log.created (log ++ [⟨r, (s.respond r).1⟩])).Nodup) :
    Accounts (log ++ [⟨r, (s.respond r).1⟩]) (s.respond r).2 := by
  rcases respond_cases hready r with ⟨err, hrespond⟩ | ⟨a, s', hrespond, heffect⟩
  · rw [hrespond]
    obtain ⟨permitted, c⟩ := r
    refine h.quiet ?_ ?_ ?_ <;> cases c <;> rfl
  rw [hrespond] at hfresh ⊢
  obtain ⟨permitted, c⟩ := r
  have hlike := heffect.isLike
  cases heffect with
  | create now id =>
      refine h.added now rfl rfl rfl ?_
      rw [Log.created_concat_of_some rfl, List.nodup_append] at hfresh
      exact fun hmem => hfresh.2.2 id hmem id (List.mem_singleton_self _) rfl
  | @start now id e hopen =>
      obtain ⟨hfind, hrunning⟩ := JobTable.of_open?_eq_ok hopen
      have hid := JobTable.id_of_find? hfind
      have hold := h.explains_of_find? hfind
      refine h.replaced hfind (s.startedEntry now e) hid rfl ?_
        (table_withTable _ _) hlike (h.numbered.congr _ (Log.appends_concat_of_none rfl))
        ⟨?_, ?_, hrunning.symm.trans hold.ended, by simp [startedEntry]⟩
      · exact fun id' _ => ⟨Log.appended_concat_of_none rfl _, Log.finishes_concat_of_none rfl _⟩
      · rw [hlike.kept, Log.appended_concat_of_none rfl]
        exact hold.updates
      · rw [hlike.dated, Log.finishes_concat_of_none rfl]
        exact hold.finished
  | @append now id e kind message hopen =>
      obtain ⟨hfind, hrunning⟩ := JobTable.of_open?_eq_ok hopen
      have hid := JobTable.id_of_find? hfind
      have hold := h.explains_of_find? hfind
      have hupdates := hold.updates
      rw [hid] at hupdates
      refine h.replaced hfind (s.longerEntry now kind message e) hid rfl ?_ (table_withTable _ _)
        hlike (h.numbered.append _ hupdates rfl) ⟨?_, ?_, hold.ended, hold.stage⟩
      · exact fun id' hne =>
          ⟨Log.appended_concat_of_ne rfl hne.symm, Log.finishes_concat_of_none rfl _⟩
      · have hlast : (s.longerEntry now kind message e).job.id = id := hid
        rw [hlike.kept, hlast, Log.appended_concat_of_some rfl, ← pushed_kept, ← hupdates]
        rfl
      · rw [hlike.dated, Log.finishes_concat_of_none rfl]
        exact hold.finished
  | @finish now id e status result hstatus hopen =>
      obtain ⟨hfind, hrunning⟩ := JobTable.of_open?_eq_ok hopen
      have hid := JobTable.id_of_find? hfind
      have hold := h.explains_of_find? hfind
      refine h.replaced hfind (s.endedEntry now status result e) hid rfl ?_ (table_withTable _ _)
        hlike (h.numbered.congr _ (Log.appends_concat_of_none rfl)) ⟨?_, ?_, hstatus, ?_⟩
      · exact fun id' hne =>
          ⟨Log.appended_concat_of_none rfl _, Log.finishes_concat_of_ne rfl hne.symm⟩
      · rw [hlike.kept, Log.appended_concat_of_none rfl]
        exact hold.updates
      · -- The job had not ended, so this is the first time.
        have hnone : e.job.finished = none := by
          have hended := hold.ended
          rw [hrunning] at hended
          simpa using hended.symm
        have hfirst : (log.finishes id).map s.dated = [] := by
          have hfinished := hold.finished
          rw [hid, hnone] at hfinished
          exact hfinished.symm
        have hlast : (s.endedEntry now status result e).job.id = id := hid
        rw [hlike.dated, hlast, Log.finishes_concat_of_some rfl, List.map_append, hfirst]
        rfl
      · cases status <;> simp_all [endedEntry, Status.isTerminal]
  | get hfind => exact h.quiet rfl rfl rfl
  | updates since hfind => exact h.quiet rfl rfl rfl
  | evict cutoff => exact h.removed rfl rfl rfl _

end Step

/-- The log of a history that starts with an empty store accounts for the store. -/
theorem History.accounts
    {s₀ s : Store} {log : Log} (h : History s₀ log s) (hempty : s₀.IsEmpty) (hready : s₀.IsReady)
    (hfresh : log.created.Nodup) : Accounts log s := by
  induction h with
  | start => exact accounts_start hempty
  | call hlog r ih =>
      have hbefore := Log.nodup_created_of_append hfresh
      exact (ih hbefore).step ((hlog.isLike hready).ready hready) r hfresh

end Population.Store
