import Population.Proofs.Job.Accounts
import Population.Proofs.Job.Content

/-!
# Exchanging one store for another

The same errands are given to a store in memory without a limit and to a durable
store.  Times are whole milliseconds and the texts of results are valid, so that
nothing is lost when they are stored; and a client that wants to read on names an
update by its place among those added to the job.  Then the two stores answer alike:
they refuse for the same reasons, jobs agree in every field, and updates differ in
nothing but their numbers, which are related by a map that ascends for every job.
-/

namespace Population.Store

/-! ## Errands -/

/-- The number of the update at a place, counted from one, among those added to a
job, and zero for the place before them all. -/
def Log.seqAt (log : Log) (id : Text) : Nat → Int
  | 0 => 0
  | k + 1 => ((log.appended id)[k]?.map (·.seq)).getD 0

namespace Call

/-- The call of a client that knows the numbers of the updates in its log. -/
def resolve (log : Log) : Call Nat → Call Int
  | create now id => create now id
  | start now id => start now id
  | append now id kind message => append now id kind message
  | finish now id status result => finish now id status result
  | get id => get id
  | updates id place => updates id (log.seqAt id place)
  | evict cutoff => evict cutoff

/-- The job that is to be created. -/
def creates? {σ : Type} : Call σ → Option Text
  | create _ id => some id
  | _ => none

/-- The times in a call. -/
def times {σ : Type} : Call σ → List Int
  | create now _ | start now _ | append now _ _ _ | finish now _ _ _ => [now]
  | evict cutoff => [cutoff]
  | get _ | updates _ _ => []

/-- The texts of the result that is handed over. -/
def texts {σ : Type} : Call σ → List Text
  | finish _ _ _ (some r) => r.texts
  | _ => []

/-- Nothing in the call is lost when it is stored: times are whole milliseconds, and
the texts of a result are valid. -/
structure IsPlain {σ : Type} (c : Call σ) : Prop where
  whole : ∀ t ∈ c.times, DurableStore.toMillis t = t
  valid : ∀ t ∈ c.texts, t.isValid = true

end Call

/-- A call of a client who may go on. -/
def exchange (s : Store) (log : Log) (c : Call Nat) : Exchange :=
  ⟨⟨true, c.resolve log⟩, (s.respond ⟨true, c.resolve log⟩).1⟩

/-- The store after a call of a client who may go on. -/
def passed (s : Store) (log : Log) (c : Call Nat) : Store :=
  (s.respond ⟨true, c.resolve log⟩).2

/-- The log and the store that errands lead to. -/
def follow (s : Store) (errands : List (Call Nat)) : Log × Store :=
  errands.foldl (fun (log, s) c => (log ++ [s.exchange log c], s.passed log c)) ([], s)

theorem follow_concat (s : Store) (errands : List (Call Nat)) (c : Call Nat) :
    s.follow (errands ++ [c]) =
      ((s.follow errands).1 ++ [(s.follow errands).2.exchange (s.follow errands).1 c],
        (s.follow errands).2.passed (s.follow errands).1 c) := by
  rw [follow, List.foldl_append]
  rfl

theorem history_follow (s : Store) (errands : List (Call Nat)) :
    History s (s.follow errands).1 (s.follow errands).2 := by
  induction errands using List.reverseRecOn with
  | nil => exact .start
  | append_singleton errands c ih =>
      rw [follow_concat]
      exact ih.call _

/-- Only jobs that are to be created are created. -/
theorem created_follow_sublist (s : Store) (errands : List (Call Nat)) :
    (s.follow errands).1.created.Sublist (errands.filterMap Call.creates?) := by
  induction errands using List.reverseRecOn with
  | nil => exact .slnil
  | append_singleton errands c ih =>
      rw [follow_concat, Log.created_append, List.filterMap_append]
      refine ih.append ?_
      cases c with
      | create now id =>
          cases hanswer : ((s.follow errands).2.respond ⟨true, .create now id⟩).1 <;>
            simp [Log.created, exchange, Call.resolve, Exchange.created?, Call.creates?, hanswer]
      | _ => exact List.Sublist.refl []

/-! ## Agreement -/

/-- Two updates that may differ in their numbers. -/
structure Alike (u u' : Progress) : Prop where
  kind : u'.kind = u.kind
  message : u'.message = u.message
  time : u'.time = u.time

/-- Two answers agree, when updates of a job are compared by a relation. -/
inductive Exchange.Agrees (R : Text → Progress → Progress → Prop) (x x' : Exchange) : Prop
  | refused {e : StoreError} (h : x.answer = .error e) (h' : x'.answer = .error e)
  | done (h : x.answer = .ok .done) (h' : x'.answer = .ok .done)
  | job {j j' : Job} (h : x.answer = .ok (.job j)) (h' : x'.answer = .ok (.job j'))
      (same : j.Same j')
  | update {id : Text} {u u' : Progress} (subject : x.request.call.subject? = some id)
      (h : x.answer = .ok (.update u)) (h' : x'.answer = .ok (.update u')) (related : R id u u')
  | updates {id : Text} {us us' : List Progress} (subject : x.request.call.subject? = some id)
      (h : x.answer = .ok (.updates us)) (h' : x'.answer = .ok (.updates us'))
      (related : List.Forall₂ (R id) us us')
  | evicted {n : Nat} (h : x.answer = .ok (.evicted n)) (h' : x'.answer = .ok (.evicted n))

theorem Exchange.Agrees.mono
    {R R' : Text → Progress → Progress → Prop} (hle : ∀ id u u', R id u u' → R' id u u')
    {x x' : Exchange} (h : x.Agrees R x') : x.Agrees R' x' := by
  cases h with
  | refused h h' => exact .refused h h'
  | done h h' => exact .done h h'
  | job h h' same => exact .job h h' same
  | update subject h h' related => exact .update subject h h' (hle _ _ _ related)
  | updates subject h h' related => exact .updates subject h h' (related.imp (hle _))
  | evicted h h' => exact .evicted h h'

/-- Two updates have the same place among those added to a job. -/
def Counterparts (log log' : Log) (id : Text) (u u' : Progress) : Prop :=
  ∃ k : Nat, (log.appended id)[k]? = some u ∧ (log'.appended id)[k]? = some u'

theorem Counterparts.append
    {log log' : Log} {id : Text} {u u' : Progress} (h : Counterparts log log' id u u')
    (later later' : Log) : Counterparts (log ++ later) (log' ++ later') id u u' := by
  obtain ⟨k, hu, hu'⟩ := h
  refine ⟨k, ?_, ?_⟩
  · rw [Log.appended_append, List.getElem?_append_left (List.getElem?_eq_some_iff.mp hu).1, hu]
  · rw [Log.appended_append, List.getElem?_append_left (List.getElem?_eq_some_iff.mp hu').1, hu']

/-- Two logs and their stores tell the same. -/
structure Mirror (log log' : Log) (s s' : Store) : Prop where
  jobs : List.Forall₂ (fun e e' => e.job.Same e'.job) s.table s'.table
  updates : ∀ id, List.Forall₂ Alike (log.appended id) (log'.appended id)

/-- Two stores answer a call alike and tell the same afterwards. -/
structure Tandem (log log' : Log) (s s' : Store) (c : Call Nat) : Prop where
  mirror : Mirror (log ++ [s.exchange log c]) (log' ++ [s'.exchange log' c]) (s.passed log c)
    (s'.passed log' c)
  agrees : (s.exchange log c).Agrees
    (Counterparts (log ++ [s.exchange log c]) (log' ++ [s'.exchange log' c]))
    (s'.exchange log' c)

/-! ## Tables -/

section Tables

variable {t t' : JobTable}

theorem find?_mirrored
    (h : List.Forall₂ (fun e e' => e.job.Same e'.job) t t') (id : Text) :
    t.find? id = none ∧ t'.find? id = none ∨
      ∃ e e', t.find? id = some e ∧ t'.find? id = some e' ∧ e.job.Same e'.job := by
  induction h with
  | nil => exact .inl ⟨rfl, rfl⟩
  | @cons e e' t t' hjob _ ih =>
      rw [JobTable.find?_cons, JobTable.find?_cons, hjob.id]
      split
      next => exact .inr ⟨e, e', rfl, rfl, hjob⟩
      next => exact ih

theorem open?_mirrored
    (h : List.Forall₂ (fun e e' => e.job.Same e'.job) t t') (id : Text) :
    (∃ err, t.open? id = .error err ∧ t'.open? id = .error err) ∨
      ∃ e e', t.open? id = .ok e ∧ t'.open? id = .ok e' ∧ e.job.Same e'.job := by
  rcases find?_mirrored h id with ⟨hnone, hnone'⟩ | ⟨e, e', hfind, hfind', hjob⟩
  · exact .inl ⟨.notFound id, by rw [JobTable.open?, hnone], by rw [JobTable.open?, hnone']⟩
  · cases hended : e.job.status.isTerminal with
    | true =>
        refine .inl ⟨.finished id, ?_, ?_⟩
        · simp [JobTable.open?, hfind, hended]
        · simp [JobTable.open?, hfind', hjob.status, hended]
    | false =>
        exact .inr ⟨e, e', JobTable.open?_eq_ok hfind hended,
          JobTable.open?_eq_ok hfind' (by rw [hjob.status, hended]), hjob⟩

theorem replace_mirrored
    (h : List.Forall₂ (fun e e' => e.job.Same e'.job) t t') {e e' : JobEntry}
    (hjob : e.job.Same e'.job) :
    List.Forall₂ (fun e e' => e.job.Same e'.job) (t.replace e) (t'.replace e') := by
  rw [JobTable.replace, JobTable.replace, List.forall₂_map_left_iff, List.forall₂_map_right_iff]
  refine h.imp fun x x' hx => ?_
  rw [hx.id, hjob.id]
  split
  · exact hjob
  · exact hx

/-- What is removed and counted in both tables is the same. -/
theorem evict_mirrored
    (h : List.Forall₂ (fun e e' => e.job.Same e'.job) t t') {p p' : JobEntry → Bool}
    (hp : ∀ e ∈ t, ∀ e' ∈ t', e.job.Same e'.job → p' e' = p e) :
    t'.countP p' = t.countP p ∧
      List.Forall₂ (fun e e' => e.job.Same e'.job) (t.filter fun e => !p e)
        (t'.filter fun e => !p' e) := by
  induction h with
  | nil => exact ⟨rfl, .nil⟩
  | @cons e e' t t' hjob _ ih =>
      have hfirst := hp e List.mem_cons_self e' List.mem_cons_self hjob
      obtain ⟨hcount, hrest⟩ := ih fun x hx x' hx' =>
        hp x (List.mem_cons_of_mem _ hx) x' (List.mem_cons_of_mem _ hx')
      rw [List.countP_cons, List.countP_cons, hcount, hfirst, List.filter_cons, List.filter_cons,
        hfirst]
      refine ⟨rfl, ?_⟩
      cases p e with
      | true => exact hrest
      | false => exact .cons hjob hrest

end Tables

/-! ## Reading on -/

/-- The updates before and after one of an ascending list. -/
theorem exists_split
    {us : List Progress} (hascending : (us.map (·.seq)).Pairwise (· < ·)) {k : Nat} {u : Progress}
    (h : us[k]? = some u) :
    ∃ before after, us = before ++ u :: after ∧ before.length = k ∧
      (∀ v ∈ before, v.seq < u.seq) ∧ ∀ v ∈ after, u.seq < v.seq := by
  obtain ⟨hk, rfl⟩ := List.getElem?_eq_some_iff.mp h
  have hsplit : us = us.take k ++ us[k] :: us.drop (k + 1) := by
    rw [← List.drop_eq_getElem_cons hk, List.take_append_drop]
  rw [List.pairwise_map] at hascending
  rw [hsplit, List.pairwise_append, List.pairwise_cons] at hascending
  refine ⟨_, _, hsplit, by rw [List.length_take]; omega, ?_, hascending.2.1.1⟩
  exact fun v hv => hascending.2.2 v hv _ List.mem_cons_self

/-- Reading on from a place skips the updates up to it. -/
theorem Accounts.updatesAfter_seqAt
    {log : Log} {s : Store} (h : Accounts log s) (hunlimited : s.IsUnlimited) {id : Text}
    {e : JobEntry} (hfind : s.table.find? id = some e) (place : Nat) :
    JobTable.updatesAfter e (log.seqAt id place) =
      (log.appended id).drop (if place ≤ (log.appended id).length then place else 0) := by
  obtain ⟨hascending, hpositive⟩ := h.numbered.ascending id
  have hupdates : e.updates = log.appended id := by
    rw [(h.explains_of_find? hfind).updates, hunlimited.kept, JobTable.id_of_find? hfind]
  have hall : (log.appended id).filter (fun u => decide (0 < u.seq)) = log.appended id :=
    List.filter_eq_self.mpr fun u hu => decide_eq_true (hpositive u hu)
  rw [JobTable.updatesAfter, hupdates]
  cases place with
  | zero => exact hall
  | succ k =>
      cases hplace : (log.appended id)[k]? with
      | none =>
          have hlength := List.getElem?_eq_none_iff.mp hplace
          rw [if_neg (by omega), Log.seqAt, hplace]
          exact hall
      | some u =>
          obtain ⟨before, after, hsplit, hlength, hbefore, hafter⟩ := exists_split hascending hplace
          have hskipped : before.filter (fun v => decide (u.seq < v.seq)) = [] := by
            refine List.filter_eq_nil_iff.mpr fun v hv => ?_
            have hlt := hbefore v hv
            simp only [decide_eq_true_eq]
            omega
          have hkept : after.filter (fun v => decide (u.seq < v.seq)) = after :=
            List.filter_eq_self.mpr fun v hv => by simpa using hafter v hv
          have hseq : log.seqAt id (k + 1) = u.seq := by simp [Log.seqAt, hplace]
          rw [hseq, hsplit, List.filter_append, List.filter_cons, hskipped, hkept]
          simp [List.drop_append, ← hlength]

/-! ## The number of an update -/

/-- How many updates are numbered up to a number. -/
def rank (us : List Progress) (n : Int) : Int :=
  us.countP (·.seq ≤ n)

theorem rank_of_getElem?
    {us : List Progress} (hascending : (us.map (·.seq)).Pairwise (· < ·)) {k : Nat} {u : Progress}
    (h : us[k]? = some u) : rank us u.seq = k + 1 := by
  obtain ⟨before, after, hsplit, hlength, hbefore, hafter⟩ := exists_split hascending h
  have hall : before.countP (·.seq ≤ u.seq) = before.length :=
    List.countP_eq_length.mpr fun v hv => decide_eq_true (Int.le_of_lt (hbefore v hv))
  have hnone : after.countP (·.seq ≤ u.seq) = 0 :=
    List.countP_eq_zero.mpr fun v hv => by simpa using hafter v hv
  rw [rank, hsplit, List.countP_append, List.countP_cons, hall, hnone, hlength]
  simp

/-- A durable store numbers the updates of a job by their places. -/
theorem seq_of_getElem?
    {log : Log} {d : DurableStore} (h : (durable d).Numbered log) {id : Text} {k : Nat}
    {u : Progress} (hu : (log.appended id)[k]? = some u) : u.seq = k + 1 := by
  have hk : k < (log.appended id).length := (List.getElem?_eq_some_iff.mp hu).1
  have hseq : ((log.appended id).map (·.seq))[k]? = some u.seq := by rw [List.getElem?_map, hu]; rfl
  rw [h id, List.getElem?_map, List.getElem?_range hk] at hseq
  exact (Option.some.inj hseq).symm

theorem rank_lt_rank {us : List Progress} {n : Int} {u : Progress} (hu : u ∈ us) (hlt : n < u.seq) :
    rank us n < rank us u.seq := by
  obtain ⟨before, after, rfl⟩ := List.append_of_mem hu
  have hmono (vs : List Progress) : vs.countP (·.seq ≤ n) ≤ vs.countP (·.seq ≤ u.seq) := by
    refine List.countP_mono_left fun v _ hv => ?_
    simp only [decide_eq_true_eq] at hv ⊢
    omega
  have hbefore := hmono before
  have hafter := hmono after
  simp only [rank, List.countP_append, List.countP_cons, decide_eq_true_eq, Int.le_refl, if_true,
    Int.not_le.mpr hlt, if_false]
  omega

/-! ## Calls -/

section Step

variable {log log' : Log} {m : MemoryStore} {d : DurableStore} {c : Call Nat}

/-- Both stores refuse. -/
theorem Mirror.refused
    {s s' : Store} (h : Mirror log log' s s') (hready : s.IsReady) (hready' : s'.IsReady)
    {err : StoreError} (hserve : s.serve (c.resolve log) = .error err)
    (hserve' : s'.serve (c.resolve log') = .error err) : Tandem log log' s s' c := by
  have hx : s.exchange log c = ⟨⟨true, c.resolve log⟩, .error err⟩ := by
    rw [exchange, respond_of_serve_error hready hserve]
  have hx' : s'.exchange log' c = ⟨⟨true, c.resolve log'⟩, .error err⟩ := by
    rw [exchange, respond_of_serve_error hready' hserve']
  have hquiet (r : Request) : Exchange.appended? ⟨r, .error err⟩ = none := by
    obtain ⟨permitted, call⟩ := r
    cases call <;> rfl
  refine ⟨⟨?_, fun id => ?_⟩, ?_⟩
  · rw [passed, passed, respond_of_serve_error hready hserve,
      respond_of_serve_error hready' hserve']
    exact h.jobs
  · rw [hx, hx', Log.appended_concat_of_none (hquiet _), Log.appended_concat_of_none (hquiet _)]
    exact h.updates id
  · rw [hx, hx']
    exact .refused rfl rfl

/-- Both stores answer, and no update is added. -/
theorem Mirror.answered
    {s s' s₁ s₁' : Store} (h : Mirror log log' s s') (hready : s.IsReady) (hready' : s'.IsReady)
    {a a' : Answer} (hserve : s.serve (c.resolve log) = .ok (a, s₁))
    (hserve' : s'.serve (c.resolve log') = .ok (a', s₁'))
    (hquiet : Exchange.appended? ⟨⟨true, c.resolve log⟩, .ok a⟩ = none)
    (hquiet' : Exchange.appended? ⟨⟨true, c.resolve log'⟩, .ok a'⟩ = none)
    (hjobs : List.Forall₂ (fun e e' => e.job.Same e'.job) s₁.table s₁'.table)
    (hagrees : Exchange.Agrees (Counterparts log log') ⟨⟨true, c.resolve log⟩, .ok a⟩
      ⟨⟨true, c.resolve log'⟩, .ok a'⟩) : Tandem log log' s s' c := by
  have hx : s.exchange log c = ⟨⟨true, c.resolve log⟩, .ok a⟩ := by
    rw [exchange, respond_of_serve_ok hready hserve]
  have hx' : s'.exchange log' c = ⟨⟨true, c.resolve log'⟩, .ok a'⟩ := by
    rw [exchange, respond_of_serve_ok hready' hserve']
  refine ⟨⟨?_, fun id => ?_⟩, ?_⟩
  · rw [passed, passed, respond_of_serve_ok hready hserve, respond_of_serve_ok hready' hserve']
    exact hjobs
  · rw [hx, hx', Log.appended_concat_of_none hquiet, Log.appended_concat_of_none hquiet']
    exact h.updates id
  · rw [hx, hx']
    exact hagrees.mono fun id u u' hu => hu.append _ _

/-- The updates of a job have their counterparts. -/
theorem Mirror.counterparts {s s' : Store} (h : Mirror log log' s s') (id : Text) :
    List.Forall₂ (Counterparts log log' id) (log.appended id) (log'.appended id) := by
  rw [List.forall₂_iff_get]
  refine ⟨(h.updates id).length_eq, fun k hk hk' => ⟨k, ?_, ?_⟩⟩
  · exact List.getElem?_eq_getElem hk
  · exact List.getElem?_eq_getElem hk'

/-- Where no updates are dropped, reading on from a place gives counterparts. -/
theorem Mirror.updatesAfter
    {s s' : Store} (h : Mirror log log' s s') (haccounts : Accounts log s)
    (haccounts' : Accounts log' s') (hunlimited : s.IsUnlimited) (hunlimited' : s'.IsUnlimited)
    {id : Text} {e e' : JobEntry} (hfind : s.table.find? id = some e)
    (hfind' : s'.table.find? id = some e') (place : Nat) :
    List.Forall₂ (Counterparts log log' id) (JobTable.updatesAfter e (log.seqAt id place))
      (JobTable.updatesAfter e' (log'.seqAt id place)) := by
  rw [haccounts.updatesAfter_seqAt hunlimited hfind,
    haccounts'.updatesAfter_seqAt hunlimited' hfind', (h.updates id).length_eq]
  exact List.forall₂_drop _ (h.counterparts id)

theorem result_same
    {e e' : JobEntry} (hjob : e.job.Same e'.job) {result : Option JobResult}
    (hvalid : ∀ r, result = some r → ∀ t ∈ r.texts, t.isValid = true) :
    Option.Rel JobResult.Same (result.or e.job.result)
      ((result.map JobResult.repaired).or e'.job.result) := by
  cases result with
  | none => exact hjob.result
  | some r => exact .some (JobResult.repaired_same (hvalid r rfl))

/-- Jobs that end agree on whether they ended before a time in whole milliseconds. -/
theorem isExpired_same
    {j j' : Job} (hjob : j.Same j') (hended : j.status.isTerminal = j.finished.isSome)
    {cutoff : Int} (hwhole : DurableStore.toMillis cutoff = cutoff) :
    DurableStore.isExpired cutoff j' = MemoryStore.isExpired cutoff j := by
  rw [DurableStore.isExpired, MemoryStore.isExpired, hended, hjob.finished, hwhole]
  cases j.finished <;> simp

/-- An update is added to a job by both stores. -/
theorem Mirror.appended
    (h : Mirror log log' (memory m) (durable d)) (hready' : (durable d).IsReady)
    {now : Int} (hnow : DurableStore.toMillis now = now) {id : Text} {e e' : JobEntry}
    (hopen : m.table.open? id = .ok e) (hopen' : d.table.open? id = .ok e')
    (hjob : e.job.Same e'.job) (kind : Kind) (message : Text) :
    Tandem log log' (memory m) (durable d) (.append now id kind message) := by
  let u := (memory m).newUpdate e.updates now kind message
  let u' := (durable d).newUpdate e'.updates now kind message
  let call : Call Int := .append now id kind message
  have hrespond : (memory m).respond ⟨true, call⟩ = (.ok (.update u), (memory m).counted.withTable
      (m.table.replace ((memory m).longerEntry now kind message e))) := by
    refine respond_of_serve_ok (s := memory m) trivial ?_
    rw [serve, table, hopen]
    rfl
  have hrespond' : (durable d).respond ⟨true, call⟩ = (.ok (.update u'),
      (durable d).counted.withTable
        (d.table.replace ((durable d).longerEntry now kind message e'))) := by
    refine respond_of_serve_ok hready' ?_
    rw [serve, table, hopen']
    rfl
  have hx : (memory m).exchange log (.append now id kind message) =
      ⟨⟨true, call⟩, .ok (.update u)⟩ := by
    rw [exchange, Call.resolve, hrespond]
  have hx' : (durable d).exchange log' (.append now id kind message) =
      ⟨⟨true, call⟩, .ok (.update u')⟩ := by
    rw [exchange, Call.resolve, hrespond']
  have hadded : Exchange.appended? ⟨⟨true, call⟩, .ok (.update u)⟩ = some (id, u) := rfl
  have hadded' : Exchange.appended? ⟨⟨true, call⟩, .ok (.update u')⟩ = some (id, u') := rfl
  have hlength := (h.updates id).length_eq
  rw [← hx] at hadded
  rw [← hx'] at hadded'
  refine ⟨⟨?_, fun other => ?_⟩, ?_⟩
  · rw [passed, passed, Call.resolve, Call.resolve, hrespond, hrespond', table_withTable,
      table_withTable]
    refine replace_mirrored h.jobs ?_
    exact ⟨hjob.id, hjob.status, hjob.created, hnow, hjob.finished, hjob.result⟩
  · by_cases hother : id = other
    · subst hother
      rw [Log.appended_concat_of_some hadded, Log.appended_concat_of_some hadded']
      exact List.rel_append (h.updates id) (.cons ⟨rfl, rfl, hnow⟩ .nil)
    · rw [Log.appended_concat_of_ne hadded hother, Log.appended_concat_of_ne hadded' hother]
      exact h.updates other
  · have hplace : Counterparts (log ++ [(memory m).exchange log (.append now id kind message)])
        (log' ++ [(durable d).exchange log' (.append now id kind message)]) id u u' := by
      refine ⟨(log.appended id).length, ?_, ?_⟩
      · rw [Log.appended_concat_of_some hadded, List.getElem?_concat_length]
      · rw [Log.appended_concat_of_some hadded', hlength, List.getElem?_concat_length]
    rw [hx, hx'] at hplace ⊢
    exact .update rfl rfl rfl hplace

/-- Every call is answered alike. -/
theorem Mirror.step
    (h : Mirror log log' (memory m) (durable d)) (haccounts : Accounts log (memory m))
    (haccounts' : Accounts log' (durable d)) (hunlimited : (memory m).IsUnlimited)
    (hready' : (durable d).IsReady) (hplain : c.IsPlain) :
    Tandem log log' (memory m) (durable d) c := by
  have hready : (memory m).IsReady := trivial
  cases c with
  | create now id =>
      have hnow : DurableStore.toMillis now = now := hplain.whole now List.mem_cons_self
      have hjob : (Job.new id now).Same (.new id (DurableStore.toMillis now)) := by
        rw [hnow]
        exact ⟨rfl, rfl, rfl, rfl, rfl, .none⟩
      refine h.answered hready hready' rfl rfl rfl rfl ?_ (.job rfl rfl hjob)
      exact List.rel_append h.jobs (.cons hjob .nil)
  | start now id =>
      have hnow : DurableStore.toMillis now = now := hplain.whole now List.mem_cons_self
      rcases open?_mirrored h.jobs id with ⟨err, hopen, hopen'⟩ | ⟨e, e', hopen, hopen', hjob⟩
      · exact h.refused hready hready' (by rw [Call.resolve, serve, hopen]; rfl)
          (by rw [Call.resolve, serve, hopen']; rfl)
      · refine h.answered hready hready' (by rw [Call.resolve, serve, hopen]; rfl)
          (by rw [Call.resolve, serve, hopen']; rfl) rfl rfl ?_ (.done rfl rfl)
        refine replace_mirrored h.jobs ?_
        exact ⟨hjob.id, rfl, hjob.created, hnow, hjob.finished, hjob.result⟩
  | append now id kind message =>
      have hnow : DurableStore.toMillis now = now := hplain.whole now List.mem_cons_self
      rcases open?_mirrored h.jobs id with ⟨err, hopen, hopen'⟩ | ⟨e, e', hopen, hopen', hjob⟩
      · exact h.refused hready hready' (by rw [Call.resolve, serve, hopen]; rfl)
          (by rw [Call.resolve, serve, hopen']; rfl)
      · exact h.appended hready' hnow hopen hopen' hjob kind message
  | finish now id status result =>
      have hnow : DurableStore.toMillis now = now := hplain.whole now List.mem_cons_self
      have hvalid : ∀ r, result = some r → ∀ t ∈ r.texts, t.isValid = true := by
        rintro r rfl
        exact hplain.valid
      cases hstatus : status.isTerminal with
      | false =>
          exact h.refused hready hready' (by rw [Call.resolve, serve, hstatus]; rfl)
            (by rw [Call.resolve, serve, hstatus]; rfl)
      | true =>
          rcases open?_mirrored h.jobs id with ⟨err, hopen, hopen'⟩ | ⟨e, e', hopen, hopen', hjob⟩
          · exact h.refused hready hready' (by rw [Call.resolve, serve, hstatus, hopen]; rfl)
              (by rw [Call.resolve, serve, hstatus, hopen']; rfl)
          · refine h.answered hready hready' (by rw [Call.resolve, serve, hstatus, hopen]; rfl)
              (by rw [Call.resolve, serve, hstatus, hopen']; rfl) rfl rfl ?_ (.done rfl rfl)
            refine replace_mirrored h.jobs ?_
            refine ⟨hjob.id, rfl, hjob.created, hnow, congrArg some hnow, ?_⟩
            have hresult := result_same hjob hvalid
            cases result <;> exact hresult
  | get id =>
      rcases find?_mirrored h.jobs id with ⟨hnone, hnone'⟩ | ⟨e, e', hfind, hfind', hjob⟩
      · exact h.refused hready hready' (by rw [Call.resolve, serve, hnone])
          (by rw [Call.resolve, serve, hnone'])
      · exact h.answered hready hready' (by rw [Call.resolve, serve, hfind])
          (by rw [Call.resolve, serve, hfind']) rfl rfl h.jobs (.job rfl rfl hjob)
  | updates id place =>
      rcases find?_mirrored h.jobs id with ⟨hnone, hnone'⟩ | ⟨e, e', hfind, hfind', hjob⟩
      · exact h.refused hready hready' (by rw [Call.resolve, serve, hnone])
          (by rw [Call.resolve, serve, hnone'])
      · have hlater := h.updatesAfter haccounts haccounts' hunlimited trivial hfind hfind' place
        exact h.answered hready hready' (by rw [Call.resolve, serve, hfind])
          (by rw [Call.resolve, serve, hfind']) rfl rfl h.jobs (.updates rfl rfl rfl hlater)
  | evict cutoff =>
      have hwhole : DurableStore.toMillis cutoff = cutoff := hplain.whole cutoff List.mem_cons_self
      obtain ⟨hcount, hjobs⟩ := evict_mirrored h.jobs
        (p := fun e => MemoryStore.isExpired cutoff e.job) fun e he e' _ hjob =>
          isExpired_same hjob (haccounts.explains e he).ended hwhole
      refine h.answered hready hready' rfl rfl rfl rfl hjobs (.evicted rfl ?_)
      exact congrArg (fun n => Except.ok (Answer.evicted n)) hcount

end Step

/-! ## Runs -/

theorem accounts_follow
    {s : Store} (hempty : s.IsEmpty) (hready : s.IsReady) {errands : List (Call Nat)}
    (hfresh : (errands.filterMap Call.creates?).Nodup) :
    Accounts (s.follow errands).1 (s.follow errands).2 :=
  (history_follow s errands).accounts hempty hready
    (hfresh.sublist (created_follow_sublist s errands))

/-- The answers to all errands agree. -/
theorem follow_agrees
    (errands : List (Call Nat)) (hplain : ∀ c ∈ errands, c.IsPlain)
    (hfresh : (errands.filterMap Call.creates?).Nodup) :
    Mirror ((memory {}).follow errands).1 ((durable {}).follow errands).1
        ((memory {}).follow errands).2 ((durable {}).follow errands).2 ∧
      List.Forall₂ (Exchange.Agrees
          (Counterparts ((memory {}).follow errands).1 ((durable {}).follow errands).1))
        ((memory {}).follow errands).1 ((durable {}).follow errands).1 := by
  have hready : (durable {}).IsReady := ⟨rfl, rfl⟩
  induction errands using List.reverseRecOn with
  | nil => exact ⟨⟨.nil, fun _ => .nil⟩, .nil⟩
  | append_singleton errands c ih =>
      rw [List.filterMap_append, List.nodup_append] at hfresh
      rw [List.forall_mem_append] at hplain
      obtain ⟨hmirror, hagree⟩ := ih hplain.1 hfresh.1
      have haccounts := accounts_follow (s := memory {}) rfl trivial hfresh.1
      have haccounts' := accounts_follow (s := durable {}) rfl hready hfresh.1
      obtain ⟨m, hm, hmax⟩ := (history_follow (memory {}) errands).exists_memory
      obtain ⟨d, hd, hready'⟩ := (history_follow (durable {}) errands).exists_durable hready
      rw [follow_concat, follow_concat]
      rw [hm] at hmirror haccounts ⊢
      rw [hd] at hmirror haccounts' ⊢
      have hstep := hmirror.step haccounts haccounts' (Int.le_of_eq hmax) hready'
        (hplain.2 c (List.mem_singleton_self c))
      refine ⟨hstep.mirror, List.rel_append ?_ (.cons hstep.agrees .nil)⟩
      exact hagree.imp fun x x' hx => hx.mono fun id u u' hu => hu.append _ _

/-- The same errands are answered alike by a store in memory without a limit and by a
durable store, up to a map of the numbers of updates that ascends for every job. -/
theorem stores_interchangeable
    (errands : List (Call Nat)) (hplain : ∀ c ∈ errands, c.IsPlain)
    (hfresh : (errands.filterMap Call.creates?).Nodup) :
    ∃ φ : Text → Int → Int,
      (∀ id, ∀ u ∈ ((memory {}).follow errands).1.appended id,
        ∀ v ∈ ((memory {}).follow errands).1.appended id,
        u.seq < v.seq → φ id u.seq < φ id v.seq) ∧
      List.Forall₂ (Exchange.Agrees fun id u u' => u'.seq = φ id u.seq ∧ Alike u u')
        ((memory {}).follow errands).1 ((durable {}).follow errands).1 := by
  have hready : (durable {}).IsReady := ⟨rfl, rfl⟩
  obtain ⟨hmirror, hagree⟩ := follow_agrees errands hplain hfresh
  have haccounts := accounts_follow (s := memory {}) rfl trivial hfresh
  have haccounts' := accounts_follow (s := durable {}) rfl hready hfresh
  obtain ⟨d, hd, -⟩ := (history_follow (durable {}) errands).exists_durable hready
  rw [hd] at haccounts'
  refine ⟨fun id => rank (((memory {}).follow errands).1.appended id),
    fun id u _ v hv hlt => rank_lt_rank hv hlt, ?_⟩
  refine hagree.imp fun x x' hx => hx.mono fun id u u' hu => ?_
  obtain ⟨k, hu, hu'⟩ := hu
  refine ⟨?_, ?_⟩
  · rw [seq_of_getElem? haccounts'.numbered hu']
    exact (rank_of_getElem? (haccounts.numbered.ascending id).1 hu).symm
  · obtain ⟨hk, rfl⟩ := List.getElem?_eq_some_iff.mp hu
    obtain ⟨hk', rfl⟩ := List.getElem?_eq_some_iff.mp hu'
    exact (hmirror.updates id).get hk hk'

/-- Two jobs get updates in turn, and one of them is read on and ended. -/
def twoJobs : List (Call Nat) :=
  [.create 0 "a", .create 0 "b", .append 1000000 "a" .info "x", .append 1000000 "b" .info "y",
    .append 2000000 "a" .success "z", .updates "a" 1,
    .finish 3000000 "a" .completed (some { verdict := "safe" }), .get "a", .evict 4000000]

theorem stores_interchangeable_twoJobs :
    (∀ c ∈ twoJobs, c.IsPlain) ∧ (twoJobs.filterMap Call.creates?).Nodup ∧
      (((memory {}).follow twoJobs).1.appended "a").map (·.seq) = [1, 3] ∧
      (((durable {}).follow twoJobs).1.appended "a").map (·.seq) = [1, 2] ∧
      ∃ φ : Text → Int → Int,
        (∀ id, ∀ u ∈ ((memory {}).follow twoJobs).1.appended id,
          ∀ v ∈ ((memory {}).follow twoJobs).1.appended id,
          u.seq < v.seq → φ id u.seq < φ id v.seq) ∧
        List.Forall₂ (Exchange.Agrees fun id u u' => u'.seq = φ id u.seq ∧ Alike u u')
          ((memory {}).follow twoJobs).1 ((durable {}).follow twoJobs).1 := by
  have hplain : ∀ c ∈ twoJobs, (∀ t ∈ c.times, DurableStore.toMillis t = t) ∧
      ∀ t ∈ c.texts, t.isValid = true := by
    decide
  have hplain : ∀ c ∈ twoJobs, c.IsPlain := fun c hc => ⟨(hplain c hc).1, (hplain c hc).2⟩
  have hfresh : (twoJobs.filterMap Call.creates?).Nodup := by decide
  exact ⟨hplain, hfresh, by decide, by decide, stores_interchangeable twoJobs hplain hfresh⟩

end Population.Store
