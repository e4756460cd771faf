import Population.Proofs.Analysis.Interplay
import Population.Proofs.Job.Polling

/-!
# Updates in the order of their numbers

A report numbers an update when it is recorded and publishes it in a later turn.  A
subscriber that stays subscribed hears every update of a job that has been recorded
and is no longer owed, each once.  But callers that report about one job at the same
time may overtake each other: the subscriber hears the updates in the order of their
numbers exactly if none of them is published while an earlier one is still owed.
-/

namespace Population

/-- The updates about a job. -/
def aboutJob (job : Text) (us : List (Text × Progress)) : List Progress :=
  (us.filter (·.1 = job)).map Prod.snd

@[simp]
theorem aboutJob_append (job : Text) (us vs : List (Text × Progress)) :
    aboutJob job (us ++ vs) = aboutJob job us ++ aboutJob job vs := by
  simp [aboutJob]

namespace Interplay

/-- The updates of a job that have been recorded. -/
def recordedFor (p : Interplay) (job : Text) : List Progress :=
  aboutJob job p.recorded

/-- The updates that have been recorded and not been published, each with its job. -/
def owing (p : Interplay) : List (Text × Progress) :=
  p.callers.filterMap (·.owes)

/-- The updates of a job that have been recorded and not been published. -/
def owed (p : Interplay) (job : Text) : List Progress :=
  aboutJob job p.owing

/-- The updates of a job that a subscriber has received. -/
def heard (p : Interplay) (sub : Subscription) (job : Text) : List Progress :=
  p.service.bus.elim [] (·.heard sub job)

/-- The event bus is open and the subscriber is subscribed. -/
def HasSubscriber (p : Interplay) (sub : Subscription) : Prop :=
  ∃ b ∈ p.service.bus, b.isClosed = false ∧ sub ∈ b.subscriptions

instance (p : Interplay) (sub : Subscription) : Decidable (p.HasSubscriber sub) :=
  inferInstanceAs (Decidable (∃ b ∈ p.service.bus, _))

/-- Nobody publishes again what he receives, and nobody is subscribed twice. -/
def HasPlainBus (p : Interplay) : Prop :=
  ∀ b, p.service.bus = some b → b.IsPlain ∧ b.subscriptions.Nodup

section Turn

variable {p : Interplay} {i : Nat} {job : Text} {sub : Subscription}

/-! ## The bus -/

theorem bus_turn (p : Interplay) (i : Nat) :
    (p.turn i).service.bus = p.service.bus ∨
      ∃ e, (p.turn i).service.bus = p.service.bus.map (·.announced e) := by
  rcases turn_cases p i with ⟨-, hsame⟩ | ⟨c, c', -, -, -, hdeed⟩
  · exact .inl (by rw [hsame])
  · cases hdeed with
    | idle _ hbus => exact .inl hbus
    | call _ _ _ hbus => exact .inl hbus
    | publish _ hbus => exact .inr ⟨_, hbus⟩

theorem exists_bus_of_turn
    (hplain : p.HasPlainBus) {b' : Bus} (hbus : (p.turn i).service.bus = some b') :
    ∃ b, p.service.bus = some b ∧ b.Narrows b' := by
  rcases bus_turn p i with hsame | ⟨e, hnew⟩
  · exact ⟨b', hsame ▸ hbus, .refl b'⟩
  · rw [hnew, Option.map_eq_some_iff] at hbus
    obtain ⟨b, hb, rfl⟩ := hbus
    exact ⟨b, hb, Bus.narrows_announced e (hplain b hb).1⟩

theorem HasPlainBus.turn (hplain : p.HasPlainBus) (i : Nat) : (p.turn i).HasPlainBus := by
  intro b' hbus
  obtain ⟨b, hb, hnarrows⟩ := exists_bus_of_turn hplain hbus
  obtain ⟨hquiet, honce⟩ := hplain b hb
  exact ⟨hnarrows.isPlain hquiet, honce.sublist hnarrows.subscriptions⟩

theorem HasSubscriber.of_turn
    (h : (p.turn i).HasSubscriber sub) (hplain : p.HasPlainBus) : p.HasSubscriber sub := by
  obtain ⟨b', hbus, hopen, hmem⟩ := h
  obtain ⟨b, hb, hnarrows⟩ := exists_bus_of_turn hplain hbus
  refine ⟨b, hb, ?_, hnarrows.subscriptions.subset hmem⟩
  by_contra hclosed
  rw [hnarrows.closed (by simpa using hclosed)] at hopen
  cases hopen

theorem HasSubscriber.of_play
    {schedule : List Nat} (h : (p.play schedule).HasSubscriber sub) (hplain : p.HasPlainBus) :
    p.HasSubscriber sub := by
  induction schedule generalizing p with
  | nil => exact h
  | cons i rest ih => exact (ih h (hplain.turn i)).of_turn hplain

/-! ## Who owes what -/

/-- A caller that takes a turn has one share in what is owed. -/
theorem exists_owing_eq {c : Caller} (hcaller : p.callers[i]? = some c) (c' : Caller) :
    ∃ before after, p.callers.filterMap (·.owes) = before ++ c.owes.toList ++ after ∧
      (p.callers.set i c').filterMap (·.owes) = before ++ c'.owes.toList ++ after := by
  obtain ⟨hlt, rfl⟩ := List.getElem?_eq_some_iff.mp hcaller
  have hsplit : p.callers = p.callers.take i ++ p.callers[i] :: p.callers.drop (i + 1) := by
    rw [List.getElem_cons_drop, List.take_append_drop]
  refine ⟨(p.callers.take i).filterMap (·.owes), (p.callers.drop (i + 1)).filterMap (·.owes),
    ?_, ?_⟩
  · conv_lhs => rw [hsplit]
    rw [List.filterMap_append, List.filterMap_cons, List.append_assoc]
    cases p.callers[i].owes <;> rfl
  · rw [List.set_eq_take_append_cons_drop, if_pos hlt, List.filterMap_append,
      List.filterMap_cons, List.append_assoc]
    cases c'.owes <;> rfl

/-- What a turn means for a job and its subscriber: a caller publishes an update that
it owed, or some updates may be recorded and are owed from now on. -/
theorem turn_observed
    (p : Interplay) (i : Nat) (hplain : p.HasPlainBus) (hsub : p.HasSubscriber sub)
    (hcovers : sub.job = allJobs ∨ sub.job = job) :
    (∃ c u, p.callers[i]? = some c ∧ c.owes = some (job, u) ∧
      (p.turn i).heard sub job = p.heard sub job ++ [u] ∧
      (p.turn i).recordedFor job = p.recordedFor job ∧
      (p.owed job).Perm (u :: (p.turn i).owed job)) ∨
    ∃ new, (∀ c, p.callers[i]? = some c → ∀ u, c.owes ≠ some (job, u)) ∧
      (p.turn i).heard sub job = p.heard sub job ∧
      (p.turn i).recordedFor job = p.recordedFor job ++ new ∧
      ((p.turn i).owed job).Perm (p.owed job ++ new) := by
  rcases turn_cases p i with ⟨hnobody, hsame⟩ | ⟨c, c', hcaller, hcallers, hrecorded, hdeed⟩
  · rw [hsame]
    exact .inr ⟨[], by simp [hnobody], rfl, by simp, by simp⟩
  obtain ⟨before, after, howed, howes⟩ := exists_owing_eq hcaller c'
  simp only [owed, owing, hcallers, howed, howes, recordedFor, hrecorded, aboutJob_append]
  cases hdeed with
  | idle _ hbus hnone hnone' =>
      refine .inr ⟨[], by simp [hcaller, hnone], by simp only [heard, hbus], ?_, ?_⟩
      · simp [hnone', aboutJob]
      · simp [hnone, hnone', aboutJob]
  | call r _ _ hbus hnone _ =>
      refine .inr ⟨aboutJob job c'.owes.toList, by simp [hcaller, hnone],
        by simp only [heard, hbus], rfl, ?_⟩
      rw [hnone]
      simp only [Option.toList_none, aboutJob, List.filter_nil, List.map_nil, List.append_nil,
        List.append_assoc]
      exact List.perm_append_comm.append_left _
  | @publish id u _ hbus hsome hnone =>
      obtain ⟨b, hb, hopen, hmem⟩ := hsub
      rw [Option.mem_def] at hb
      obtain ⟨hquiet, honce⟩ := hplain b hb
      have hheard : (p.turn i).heard sub job =
          p.heard sub job ++ if id = job then [u] else [] := by
        simp only [heard, hbus, hb, Option.map_some, Option.elim]
        exact Bus.heard_announced hquiet hopen honce hmem hcovers
      by_cases hid : id = job
      · subst hid
        refine .inl ⟨c, u, hcaller, hsome, by simpa using hheard, ?_, ?_⟩
        · simp [hnone, aboutJob]
        · rw [hsome, hnone]
          simp only [aboutJob, Option.toList_some, Option.toList_none, List.filter_cons,
            decide_true, if_true, List.filter_nil, List.map_cons, List.map_nil, List.append_nil,
            List.append_assoc]
          exact List.perm_middle
      · refine .inr ⟨[], by simp [hcaller, hsome, hid], by simpa [hid] using hheard, ?_, ?_⟩
        · simp [hnone, aboutJob]
        · simp [hsome, hnone, aboutJob, hid]

end Turn

/-! ## Every update once -/

/-- What the subscriber of a job has heard of it and what is still owed is what has been
recorded. -/
structure Conveys (p : Interplay) (sub : Subscription) (job : Text) : Prop where
  plain : p.HasPlainBus
  covers : sub.job = allJobs ∨ sub.job = job
  balance : (p.heard sub job ++ p.owed job).Perm (p.recordedFor job)

variable {p : Interplay} {sub : Subscription} {job : Text}

theorem Conveys.turn
    (h : p.Conveys sub job) (hsub : p.HasSubscriber sub) (i : Nat) :
    (p.turn i).Conveys sub job where
  plain := h.plain.turn i
  covers := h.covers
  balance := by
    rcases turn_observed p i h.plain hsub h.covers with
      ⟨c, u, -, -, hheard, hrecorded, howed⟩ | ⟨new, -, hheard, hrecorded, howed⟩
    · rw [hheard, hrecorded, List.append_assoc]
      exact (howed.symm.append_left _).trans h.balance
    · rw [hheard, hrecorded]
      refine (howed.append_left _).trans ?_
      rw [← List.append_assoc]
      exact h.balance.append_right new

theorem Conveys.play
    (h : p.Conveys sub job) {schedule : List Nat} (hsub : (p.play schedule).HasSubscriber sub) :
    (p.play schedule).Conveys sub job := by
  induction schedule generalizing p with
  | nil => exact h
  | cons i rest ih =>
      have hsub' : p.HasSubscriber sub := hsub.of_play h.plain
      exact ih (h.turn hsub' i) hsub

/-! ## Overtaking -/

/-- In its turn a caller publishes an update of the job while an earlier one is owed. -/
def Overtakes (p : Interplay) (job : Text) (i : Nat) : Prop :=
  ∃ c u, p.callers[i]? = some c ∧ c.owes = some (job, u) ∧ ∃ u' ∈ p.owed job, u'.seq < u.seq

/-- Nobody overtakes. -/
def InOrder (p : Interplay) (job : Text) : (schedule : List Nat) → Prop
  | [] => True
  | i :: rest => ¬ p.Overtakes job i ∧ (p.turn i).InOrder job rest

theorem recordedFor_isPrefix_play (p : Interplay) (schedule : List Nat) (job : Text) :
    p.recordedFor job <+: (p.play schedule).recordedFor job := by
  obtain ⟨log, -, hrecorded, -⟩ := exists_history p schedule
  rw [recordedFor, recordedFor, hrecorded, aboutJob_append]
  exact List.prefix_append _ _

/-- The numbers of updates grow. -/
def Ascends (us : List Progress) : Prop :=
  (us.map (·.seq)).Pairwise (· < ·)

instance (us : List Progress) : Decidable (Ascends us) :=
  inferInstanceAs (Decidable ((us.map (·.seq)).Pairwise (· < ·)))

theorem Ascends.of_isPrefix {us vs : List Progress} (h : Ascends vs) (hinitial : us <+: vs) :
    Ascends us :=
  h.sublist (hinitial.sublist.map _)

/-- As long as nobody overtakes, the subscriber hears the first of the recorded
updates. -/
theorem Conveys.heard_isPrefix_turn
    (h : p.Conveys sub job) (hsub : p.HasSubscriber sub) (hascends : Ascends (p.recordedFor job))
    {i : Nat} (horder : ¬ p.Overtakes job i)
    (hinitial : p.heard sub job <+: p.recordedFor job) :
    (p.turn i).heard sub job <+: (p.turn i).recordedFor job := by
  rcases turn_observed p i h.plain hsub h.covers with
    ⟨c, u, hcaller, howes, hheard, hrecorded, howed⟩ | ⟨new, -, hheard, hrecorded, -⟩
  rotate_left
  · rw [hheard, hrecorded]
    exact hinitial.trans (List.prefix_append _ _)
  rw [hheard, hrecorded]
  obtain ⟨rest, hrest⟩ := hinitial
  -- What is left of the recorded updates is what is owed, and the published one is among it.
  have hleft : (p.owed job).Perm rest := by
    have hbalance := h.balance
    rw [← hrest] at hbalance
    exact (List.perm_append_left_iff _).mp hbalance
  have hmem : u ∈ rest := hleft.subset (howed.symm.subset List.mem_cons_self)
  rw [← hrest] at hascends ⊢
  cases rest with
  | nil => cases hmem
  | cons w later =>
      have hfirst : w = u := by
        by_contra hne
        refine horder ⟨c, u, hcaller, howes, w, hleft.symm.subset List.mem_cons_self, ?_⟩
        rw [Ascends, List.map_append, List.pairwise_append, List.map_cons,
          List.pairwise_cons] at hascends
        have hlater : u ∈ later := (List.mem_cons.mp hmem).resolve_left (Ne.symm hne)
        exact hascends.2.1.1 u.seq (List.mem_map_of_mem hlater)
      subst hfirst
      exact (List.prefix_append_right_inj _).mpr ⟨later, rfl⟩

theorem Conveys.heard_isPrefix
    (h : p.Conveys sub job) {schedule : List Nat} (hsub : (p.play schedule).HasSubscriber sub)
    (hascends : Ascends ((p.play schedule).recordedFor job)) (horder : p.InOrder job schedule)
    (hinitial : p.heard sub job <+: p.recordedFor job) :
    (p.play schedule).heard sub job <+: (p.play schedule).recordedFor job := by
  induction schedule generalizing p with
  | nil => exact hinitial
  | cons i rest ih =>
      have hsub' : p.HasSubscriber sub := hsub.of_play h.plain
      have hascends' : Ascends (p.recordedFor job) :=
        hascends.of_isPrefix (recordedFor_isPrefix_play p (i :: rest) job)
      exact ih (h.turn hsub' i) hsub hascends horder.2
        (h.heard_isPrefix_turn hsub' hascends' horder.1 hinitial)

theorem Conveys.heard_grows
    (h : p.Conveys sub job) {schedule : List Nat} (hsub : (p.play schedule).HasSubscriber sub) :
    p.heard sub job <+: (p.play schedule).heard sub job := by
  induction schedule generalizing p with
  | nil => exact List.prefix_rfl
  | cons i rest ih =>
      have hsub' : p.HasSubscriber sub := hsub.of_play h.plain
      refine List.IsPrefix.trans ?_ (ih (h.turn hsub' i) hsub)
      rcases turn_observed p i h.plain hsub' h.covers with
        ⟨c, u, -, -, hheard, -⟩ | ⟨new, -, hheard, -⟩
      · exact ⟨[u], hheard.symm⟩
      · exact ⟨[], by rw [hheard, List.append_nil]⟩

/-- Whoever overtakes is heard too early, if the earlier update is published at all. -/
theorem Conveys.not_overtakes
    (h : p.Conveys sub job) {i : Nat} {rest : List Nat}
    (hsub : (p.play (i :: rest)).HasSubscriber sub)
    (hascends : Ascends ((p.play (i :: rest)).recordedFor job))
    (hpublished : (p.play (i :: rest)).owed job = [])
    (hheard : Ascends ((p.play (i :: rest)).heard sub job)) : ¬ p.Overtakes job i := by
  rintro ⟨c, u, hcaller, howes, u', howed', hlt⟩
  have hsub' : p.HasSubscriber sub := hsub.of_play h.plain
  have hnext : (p.turn i).Conveys sub job := h.turn hsub' i
  rcases turn_observed p i h.plain hsub' h.covers with
    ⟨c₁, u₁, hcaller₁, howes₁, hturn, -, howed⟩ | ⟨new, hnone, -⟩
  rotate_left
  · exact hnone c hcaller u howes
  cases hcaller.symm.trans hcaller₁
  cases howes.symm.trans howes₁
  -- The earlier update is still owed after the turn, so it is heard later than the other.
  have howed' : u' ∈ (p.turn i).owed job := by
    refine (List.mem_cons.mp (howed.subset howed')).resolve_left ?_
    rintro rfl
    omega
  -- No update is both heard and owed, for then it would have been recorded twice.
  have hdisjoint : u' ∉ (p.turn i).heard sub job := by
    have hinitial := recordedFor_isPrefix_play (p.turn i) rest job
    have hnodup : ((p.turn i).recordedFor job).Nodup :=
      Store.nodup_of_ascending (hascends.of_isPrefix hinitial)
    rw [← hnext.balance.nodup_iff, List.nodup_append] at hnodup
    exact fun hmem => hnodup.2.2 u' hmem u' howed' rfl
  have hfinally : u' ∈ (p.play (i :: rest)).heard sub job := by
    have hrecorded := (recordedFor_isPrefix_play (p.turn i) rest job).subset
      (hnext.balance.subset (List.mem_append_right _ howed'))
    have hbalance := (h.play hsub).balance
    rw [hpublished, List.append_nil] at hbalance
    exact hbalance.symm.subset hrecorded
  obtain ⟨later, hlater⟩ := hnext.heard_grows hsub
  rw [play_cons, ← hlater] at hfinally hheard
  have hlate : u' ∈ later := (List.mem_append.mp hfinally).resolve_left hdisjoint
  rw [Ascends, List.map_append, List.pairwise_append] at hheard
  have hgt := hheard.2.2 u.seq (List.mem_map_of_mem (by simp [hturn])) u'.seq
    (List.mem_map_of_mem hlate)
  omega

theorem Conveys.inOrder
    (h : p.Conveys sub job) {schedule : List Nat} (hsub : (p.play schedule).HasSubscriber sub)
    (hascends : Ascends ((p.play schedule).recordedFor job))
    (hpublished : (p.play schedule).owed job = [])
    (hheard : Ascends ((p.play schedule).heard sub job)) : p.InOrder job schedule := by
  induction schedule generalizing p with
  | nil => trivial
  | cons i rest ih =>
      have hsub' : p.HasSubscriber sub := hsub.of_play h.plain
      exact ⟨h.not_overtakes hsub hascends hpublished hheard,
        ih (h.turn hsub' i) hsub hascends hpublished hheard⟩

theorem inOrder_of_single (hsingle : p.callers.length ≤ 1) (schedule : List Nat) :
    p.InOrder job schedule := by
  induction schedule generalizing p with
  | nil => trivial
  | cons i rest ih =>
      refine ⟨?_, ih ?_⟩
      · rintro ⟨c, u, hcaller, howes, u', howed, hlt⟩
        have honly : p.callers = [c] := by
          obtain ⟨hi, rfl⟩ := List.getElem?_eq_some_iff.mp hcaller
          have hlength : p.callers.length = 1 := by omega
          obtain ⟨c, hc⟩ := List.length_eq_one_iff.mp hlength
          simp [hc]
        rw [owed, owing, honly] at howed
        have hu : u' = u := by simpa [aboutJob, howes] using howed
        rw [hu] at hlt
        omega
      · rcases turn_cases p i with ⟨-, hsame⟩ | ⟨c, c', -, hcallers, -, -⟩
        · rwa [hsame]
        · rwa [hcallers, List.length_set]

end Interplay

/-! ## An analysis and completions by hand -/

/-- A store with a history in which nothing has been recorded for the job, and a
subscriber of the job that has heard nothing about it yet.  No identifier was used for
two jobs, nobody is subscribed twice, and no handler publishes again. -/
structure Service.Attends (v : Service) (sub : Subscription) (job : Text) : Prop where
  history : ∃ s₀ log, s₀.IsEmpty ∧ s₀.IsReady ∧ Store.History s₀ log v.registry.store ∧
    log.created.Nodup ∧ log.appended job = []
  bus : ∃ b, v.bus = some b ∧ b.IsPlain ∧ b.subscriptions.Nodup ∧ b.heard sub job = []
  covers : sub.job = allJobs ∨ sub.job = job

/-- One caller analyses a text for a job, and others complete the job by hand. -/
def Interplay.analysisAndCompletions (v : Service) (job text : Text) (context : Allowance)
    (contexts : List Allowance) : Interplay where
  service := v
  callers := .beginning (Routine.analyze job text) context ::
    contexts.map (.beginning (Routine.completeByHand job))

namespace Interplay

variable {v : Service} {sub : Subscription} {job : Text}

theorem owed_analysisAndCompletions
    (v : Service) (job text : Text) (context : Allowance) (contexts : List Allowance) :
    (analysisAndCompletions v job text context contexts).owed job = [] := by
  have hnone : ∀ c ∈ (analysisAndCompletions v job text context contexts).callers,
      c.owes = none := by
    intro c hc
    rcases List.mem_cons.mp hc with rfl | hc
    · rfl
    · obtain ⟨a, -, rfl⟩ := List.mem_map.mp hc
      rfl
  rw [owed, owing, List.filterMap_eq_nil_iff.mpr hnone]
  rfl

theorem conveys_analysisAndCompletions
    (h : v.Attends sub job) (text : Text) (context : Allowance) (contexts : List Allowance) :
    (analysisAndCompletions v job text context contexts).Conveys sub job := by
  obtain ⟨b, hbus, hplain, honce, hheard⟩ := h.bus
  refine ⟨?_, h.covers, ?_⟩
  · intro b' hbus'
    cases hbus.symm.trans hbus'
    exact ⟨hplain, honce⟩
  · rw [owed_analysisAndCompletions]
    simp [heard, analysisAndCompletions, hbus, hheard, recordedFor, aboutJob]

/-- What callers record is what the store keeps for the job, in the order of the
numbers. -/
theorem ascends_recordedFor
    (h : v.Attends sub job) {p : Interplay} (hservice : p.service = v) (hnone : p.recorded = [])
    (schedule : List Nat) :
    Ascends ((p.play schedule).recordedFor job) ∧
      ∀ e, (p.play schedule).store.table.find? job = some e →
        e.updates = (p.play schedule).store.kept ((p.play schedule).recordedFor job) := by
  obtain ⟨s₀, log, hempty, hready, hhistory, hfresh, hnew⟩ := h.history
  obtain ⟨log', hhistory', hrecorded, hadvances⟩ := exists_history p schedule
  rw [hnone, List.nil_append] at hrecorded
  rw [store, hservice] at hhistory'
  have hall := hhistory.append hhistory'
  have haccounts := hall.accounts hempty hready <| by
    rwa [Store.Log.created_append, Store.Log.created_of_advances hadvances, List.append_nil]
  have hrecords : (p.play schedule).recordedFor job = Store.Log.appended (log ++ log') job := by
    rw [Store.Log.appended_append, hnew, List.nil_append, recordedFor, hrecorded]
    rfl
  rw [hrecords]
  refine ⟨(haccounts.numbered.ascending job).1, ?_⟩
  intro e hfind
  have hupdates := (haccounts.explains_of_find? hfind).updates
  rwa [JobTable.id_of_find? hfind] at hupdates

end Interplay

open Interplay in
/-- While a job is analysed and completed by hand at the same time, a subscriber of the
job that stays subscribed hears every update that the store records for it, except for
those that are still to be published, and each of them once.  When none is, it has heard
them in the order of their numbers exactly if nobody overtook; an analysis alone is
always heard in order. -/
theorem heard_in_order_iff
    {v : Service} {sub : Subscription} {job : Text} (hattends : v.Attends sub job)
    (text : Text) (context : Allowance) (contexts : List Allowance) (schedule : List Nat)
    (hstays : ((analysisAndCompletions v job text context contexts).play schedule).HasSubscriber
      sub) :
    let p := analysisAndCompletions v job text context contexts
    let q := p.play schedule
    (q.heard sub job ++ q.owed job).Perm (q.recordedFor job) ∧
      Ascends (q.recordedFor job) ∧
      (∀ e, q.store.table.find? job = some e → e.updates = q.store.kept (q.recordedFor job)) ∧
      (q.owed job = [] → (Ascends (q.heard sub job) ↔ p.InOrder job schedule)) ∧
      (p.InOrder job schedule → q.heard sub job <+: q.recordedFor job) ∧
      (contexts = [] → p.InOrder job schedule) := by
  intro p q
  have hconveys : p.Conveys sub job := conveys_analysisAndCompletions hattends text context contexts
  obtain ⟨hascends, hkept⟩ : Ascends (q.recordedFor job) ∧ _ :=
    ascends_recordedFor hattends rfl rfl schedule
  have hinitial (horder : p.InOrder job schedule) : q.heard sub job <+: q.recordedFor job := by
    refine hconveys.heard_isPrefix hstays hascends horder ?_
    obtain ⟨b, hbus, -, -, hheard⟩ := hattends.bus
    have hnone : p.heard sub job = [] := by
      simp [heard, p, analysisAndCompletions, hbus, hheard]
    rw [hnone]
    exact List.nil_prefix
  refine ⟨(hconveys.play hstays).balance, hascends, hkept, ?_, hinitial, ?_⟩
  · intro hpublished
    constructor
    · exact hconveys.inOrder hstays hascends hpublished
    · exact fun horder => hascends.of_isPrefix (hinitial horder)
  · rintro rfl
    exact inOrder_of_single (by simp [p, analysisAndCompletions]) schedule

/-! ### A completion that overtakes an analysis -/

def listener : Subscription := ⟨"s", 1, "a", .listen⟩

/-- A service with one job that nobody has worked on, and one listener. -/
def listenedService : Service where
  options := ⟨1, 1, false, "work", 1⟩
  oracle := .explicit 100
  registry := ⟨((Store.memory {}).respond ⟨true, .create 0 "a"⟩).2, { now := 0 }, 1⟩
  bus := some { subscriptions := [listener], made := 1 }

theorem listenedService_attends : listenedService.Attends listener "a" where
  history := ⟨.memory {}, _, rfl, trivial, Store.History.start.call ⟨true, .create 0 "a"⟩,
    by decide, rfl⟩
  bus := by
    refine ⟨_, rfl, ?_, by decide, rfl⟩
    intro s hs
    cases List.mem_singleton.mp hs
    decide
  covers := .inr rfl

/-- The analysis of a text that cannot be read, and a completion by hand.  In its sixth
turn the analysis records why it fails, and publishes it in the seventh; the completion
takes two turns to report. -/
def rivals : Interplay :=
  .analysisAndCompletions listenedService "a" "" .unlimited [.unlimited]

/-- One report after the other is heard in order. -/
theorem heard_in_order_iff_rivals :
    listenedService.Attends listener "a" ∧
      (rivals.play [0, 0, 0, 0, 0, 0, 0, 1, 1]).HasSubscriber listener ∧
      (rivals.play [0, 0, 0, 0, 0, 0, 0, 1, 1]).owed "a" = [] ∧
      rivals.InOrder "a" [0, 0, 0, 0, 0, 0, 0, 1, 1] ∧
      ((rivals.play [0, 0, 0, 0, 0, 0, 0, 1, 1]).heard listener "a").length = 2 := by
  have hstays : (rivals.play [0, 0, 0, 0, 0, 0, 0, 1, 1]).HasSubscriber listener := by
    decide +kernel
  have hpublished : (rivals.play [0, 0, 0, 0, 0, 0, 0, 1, 1]).owed "a" = [] := by decide +kernel
  obtain ⟨-, -, -, hiff, -⟩ :=
    heard_in_order_iff listenedService_attends "" .unlimited [.unlimited] _ hstays
  exact ⟨listenedService_attends, hstays, hpublished, (hiff hpublished).mp (by decide +kernel),
    by decide +kernel⟩

/-- The completion records and publishes its update between the two turns in which the
analysis does: the listener hears the second update first. -/
theorem completion_overtakes_analysis :
    listenedService.Attends listener "a" ∧
      (rivals.play [0, 0, 0, 0, 0, 0, 1, 1, 0]).HasSubscriber listener ∧
      ((rivals.play [0, 0, 0, 0, 0, 0, 1, 1, 0]).recordedFor "a").map (·.seq) = [1, 2] ∧
      ((rivals.play [0, 0, 0, 0, 0, 0, 1, 1, 0]).heard listener "a").map (·.seq) = [2, 1] :=
  ⟨listenedService_attends, by decide +kernel,
    by decide +kernel, by decide +kernel⟩

end Population
