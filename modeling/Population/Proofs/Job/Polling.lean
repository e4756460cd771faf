import Population.Proofs.Job.Accounts

/-!
# Polling a job

A client that wants all updates of a job asks again and again for those after the
last one that it has received.  Whoever else calls the store in between, the client
loses nothing and gets nothing twice: what it has received is what had been added to
the job when it was last answered.  Where the store drops old updates, the client
still receives all those that the store held when it asked.
-/

namespace Population.Store

/-- A store, and a client that polls one of its jobs. -/
structure Watch where
  store : Store
  log : Log := []
  /-- All that the client has received. -/
  received : List Progress := []
  /-- What had been added to the job when the client was last answered. -/
  due : List Progress := []
  /-- What the store held for the job whenever the client was answered. -/
  retained : List Progress := []

/-- What happens next: the client polls, or anybody calls the store. -/
inductive Move where
  | poll (permitted : Bool)
  | other (r : Request)

namespace Watch

/-- The number of the last update that the client has received, or zero. -/
def since (w : Watch) : Int :=
  (w.received.getLast?.map (·.seq)).getD 0

/-- The store is called. -/
def call (w : Watch) (r : Request) : Watch :=
  { w with
    store := (w.store.respond r).2
    log := w.log ++ [⟨r, (w.store.respond r).1⟩] }

/-- The client asks for what comes after the last update that it has received. -/
def poll (w : Watch) (id : Text) (permitted : Bool) : Watch :=
  let r : Request := ⟨permitted, .updates id w.since⟩
  match (w.store.respond r).1 with
  | .ok (.updates us) =>
    { w.call r with
      received := w.received ++ us
      due := w.log.appended id
      retained := w.retained ++ ((w.store.table.find? id).elim [] (·.updates)) }
  | _ => w.call r

/-- The watch after a move. -/
def move (w : Watch) (id : Text) : Move → Watch
  | .poll permitted => w.poll id permitted
  | .other r => w.call r

/-- The watches of a job that begin with a store. -/
inductive Reached (id : Text) (s₀ : Store) : Watch → Prop
  | start : Reached id s₀ { store := s₀ }
  | move {w : Watch} (h : Reached id s₀ w) (m : Move) : Reached id s₀ (w.move id m)

/-- A poll is refused, or it is answered with what the store holds after the last
update that the client has received. -/
theorem poll_cases
    {w : Watch} (hready : w.store.IsReady) (id : Text) (permitted : Bool) :
    w.poll id permitted = w.call ⟨permitted, .updates id w.since⟩ ∨
      ∃ e, w.store.table.find? id = some e ∧
        w.poll id permitted =
          { w.call ⟨permitted, .updates id w.since⟩ with
            received := w.received ++ JobTable.updatesAfter e w.since
            due := w.log.appended id
            retained := w.retained ++ e.updates } := by
  rcases respond_cases hready ⟨permitted, .updates id w.since⟩ with
    ⟨err, hrespond⟩ | ⟨a, s', hrespond, heffect⟩
  · left
    simp only [poll, hrespond]
  · right
    cases heffect with
    | @updates _ e _ hfind =>
        refine ⟨e, hfind, ?_⟩
        simp only [poll, hrespond, hfind, Option.elim]

/-- A client who may go on is answered about a job that is there. -/
theorem poll_answered
    {w : Watch} (hready : w.store.IsReady) {id : Text} {e : JobEntry}
    (hfind : w.store.table.find? id = some e) :
    (w.poll id true).due = w.log.appended id ∧
      (w.poll id true).retained = w.retained ++ e.updates := by
  have hanswer : (w.store.respond ⟨true, .updates id w.since⟩).1 =
      .ok (.updates (JobTable.updatesAfter e w.since)) := by
    rw [respond_of_ready hready, serve, hfind, settle]
  simp only [poll, hanswer, hfind, Option.elim, and_self]

theorem log_poll (w : Watch) (id : Text) (permitted : Bool) :
    (w.poll id permitted).log = (w.call ⟨permitted, .updates id w.since⟩).log := by
  simp only [poll]
  split <;> rfl

end Watch

/-! ## Lists of updates -/

/-- What is kept of a longer list and was there before was kept before. -/
theorem mem_kept_of_mem_kept_append
    {s : Store} {us vs : List Progress} {u : Progress} (h : u ∈ s.kept (us ++ vs)) (hnew : u ∉ vs) :
    u ∈ s.kept us := by
  cases s with
  | memory m =>
      simp only [kept] at h ⊢
      split at h
      next hmax =>
        rw [if_pos hmax]
        rw [List.rtake, List.drop_append, List.mem_append] at h
        rcases h with h | h
        · refine (List.drop_sublist_drop_left us ?_).subset h
          rw [List.length_append]
          omega
        · exact absurd (List.mem_of_mem_drop h) hnew
      next hmax =>
        rw [if_neg hmax]
        exact (List.mem_append.mp h).resolve_right hnew
  | durable d => exact (List.mem_append.mp h).resolve_right hnew

theorem nodup_of_ascending {us : List Progress} (h : (us.map (·.seq)).Pairwise (· < ·)) :
    us.Nodup := by
  rw [List.pairwise_map] at h
  exact h.imp fun hlt heq => by simp [heq] at hlt

/-- Lists that ascend in number and have the same members are the same. -/
theorem eq_of_ascending
    {us vs : List Progress} (hus : (us.map (·.seq)).Pairwise (· < ·))
    (hvs : (vs.map (·.seq)).Pairwise (· < ·)) (hmem : ∀ u, u ∈ us ↔ u ∈ vs) : us = vs := by
  have hperm : us.Perm vs :=
    (List.perm_ext_iff_of_nodup (nodup_of_ascending hus) (nodup_of_ascending hvs)).mpr hmem
  rw [List.pairwise_map] at hus hvs
  exact hperm.eq_of_pairwise (fun u v _ _ h h' => absurd h (by omega)) hus hvs

namespace Watch

/-! ## What the client knows -/

/-- What holds of the watch of a job. -/
structure Sound (id : Text) (s₀ : Store) (w : Watch) : Prop where
  history : History s₀ w.log w.store
  due : w.due <+: w.log.appended id
  ascending : (w.received.map (·.seq)).Pairwise (· < ·)
  received : ∀ u ∈ w.received, u ∈ w.due
  complete : ∀ u ∈ w.store.kept w.due, u ∈ w.received
  retained : ∀ u ∈ w.retained, u ∈ w.received

/-- Either nothing has been received, or `since` is the largest number received. -/
theorem since_cases {w : Watch} (h : (w.received.map (·.seq)).Pairwise (· < ·)) :
    w.received = [] ∧ w.since = 0 ∨
      ∃ v ∈ w.received, v.seq = w.since ∧ ∀ u ∈ w.received, u.seq ≤ w.since := by
  rcases List.eq_nil_or_concat' w.received with hnil | ⟨us, v, hconcat⟩
  · exact .inl ⟨hnil, by simp [since, hnil]⟩
  · have hsince : w.since = v.seq := by simp [since, hconcat]
    refine .inr ⟨v, by simp [hconcat], hsince.symm, ?_⟩
    intro u hu
    rw [hconcat, List.map_append, List.pairwise_append] at h
    rw [hconcat, List.mem_append, List.mem_singleton] at hu
    rw [hsince]
    rcases hu with hu | rfl
    · have hlt := h.2.2 _ (List.mem_map_of_mem hu) v.seq (by simp)
      omega
    · exact Int.le_refl _

variable {id : Text} {s₀ : Store} {w : Watch}

theorem Sound.ready (h : Sound id s₀ w) (hready : s₀.IsReady) : w.store.IsReady :=
  (h.history.isLike hready).ready hready

theorem sound_start (id : Text) (s₀ : Store) : Sound id s₀ { store := s₀ } where
  history := .start
  due := List.nil_prefix
  ascending := .nil
  received := by simp
  complete := by
    intro u hu
    rwa [List.suffix_nil.mp (kept_suffix s₀ [])] at hu
  retained := by simp

/-- A call leaves what the client has received. -/
theorem Sound.call (h : Sound id s₀ w) (hready : s₀.IsReady) (r : Request) :
    Sound id s₀ (w.call r) where
  history := h.history.call r
  due := by
    rw [Watch.call, Log.appended_append]
    exact h.due.trans (List.prefix_append _ _)
  ascending := h.ascending
  received := h.received
  complete := by
    intro u hu
    rw [Watch.call, (respond_isLike (h.ready hready) r).kept] at hu
    exact h.complete u hu
  retained := h.retained

/-- What the store holds up to the last update that the client has received, the
client has received. -/
theorem Sound.mem_received_of_le
    (h : Sound id s₀ w) (haccounts : Accounts w.log w.store) {u : Progress}
    (hkept : u ∈ w.store.kept (w.log.appended id)) (hle : u.seq ≤ w.since) : u ∈ w.received := by
  obtain ⟨hascending, hpositive⟩ := haccounts.numbered.ascending id
  have hmem : u ∈ w.log.appended id := (kept_suffix _ _).subset hkept
  rcases since_cases h.ascending with ⟨-, hsince⟩ | ⟨v, hv, hsince, -⟩
  · have hlt := hpositive u hmem
    omega
  -- The update was added before the last one received, so it is not among the later ones.
  obtain ⟨later, hlater⟩ := h.due
  rw [← hlater] at hkept
  refine h.complete u (mem_kept_of_mem_kept_append hkept ?_)
  intro hu
  rw [← hlater, List.map_append, List.pairwise_append] at hascending
  have hlt := hascending.2.2 v.seq (List.mem_map_of_mem (h.received v hv)) u.seq
    (List.mem_map_of_mem hu)
  omega

/-- What is answered continues what the client has received. -/
theorem Sound.ascending_append
    (h : Sound id s₀ w) (haccounts : Accounts w.log w.store) {e : JobEntry}
    (hupdates : e.updates = w.store.kept (w.log.appended id)) :
    ((w.received ++ JobTable.updatesAfter e w.since).map (·.seq)).Pairwise (· < ·) := by
  have hascending := (haccounts.numbered.ascending id).1
  rw [List.map_append, List.pairwise_append]
  refine ⟨h.ascending, ?_, ?_⟩
  · have hsub : (JobTable.updatesAfter e w.since).Sublist (w.log.appended id) := by
      refine List.filter_sublist.trans ?_
      rw [hupdates]
      exact (kept_suffix _ _).sublist
    exact hascending.sublist (hsub.map _)
  · intro n hn n' hn'
    obtain ⟨u, hu, rfl⟩ := List.mem_map.mp hn
    obtain ⟨v, hv, rfl⟩ := List.mem_map.mp hn'
    have hafter : w.since < v.seq := by simpa using (List.mem_filter.mp hv).2
    rcases since_cases h.ascending with ⟨hnil, -⟩ | ⟨_, -, -, hle⟩
    · rw [hnil] at hu
      cases hu
    · have hu := hle u hu
      omega

/-- An answered poll brings the client up to date. -/
theorem Sound.poll
    (h : Sound id s₀ w) (hready : s₀.IsReady) (haccounts : Accounts w.log w.store)
    (permitted : Bool) : Sound id s₀ (w.poll id permitted) := by
  rcases poll_cases (h.ready hready) id permitted with hpoll | ⟨e, hfind, hpoll⟩
  · rw [hpoll]
    exact h.call hready _
  have hupdates : e.updates = w.store.kept (w.log.appended id) := by
    have hexplains := (haccounts.explains_of_find? hfind).updates
    rwa [JobTable.id_of_find? hfind] at hexplains
  have hcalled := h.call hready ⟨permitted, .updates id w.since⟩
  have hlike := respond_isLike (h.ready hready) ⟨permitted, .updates id w.since⟩
  -- What the store holds comes after the last update received, or the client has it.
  have hcomplete : ∀ u ∈ w.store.kept (w.log.appended id),
      u ∈ w.received ++ JobTable.updatesAfter e w.since := by
    intro u hu
    rw [List.mem_append]
    by_cases hafter : w.since < u.seq
    · right
      rw [← hupdates] at hu
      exact List.mem_filter.mpr ⟨hu, by simpa using hafter⟩
    · exact .inl (h.mem_received_of_le haccounts hu (by omega))
  rw [hpoll]
  refine ⟨hcalled.history, ?_, h.ascending_append haccounts hupdates, ?_, ?_, ?_⟩
  · simp only [Watch.call, Log.appended_append]
    exact List.prefix_append _ _
  · intro u hu
    rcases List.mem_append.mp hu with hu | hu
    · exact h.due.subset (h.received u hu)
    · have hu := (List.mem_filter.mp hu).1
      rw [hupdates] at hu
      exact (kept_suffix _ _).subset hu
  · intro u hu
    simp only [Watch.call, hlike.kept] at hu
    exact hcomplete u hu
  · intro u hu
    rcases List.mem_append.mp hu with hu | hu
    · exact List.mem_append_left _ (h.retained u hu)
    · rw [hupdates] at hu
      exact hcomplete u hu

/-- Whatever happens, the watch is sound. -/
theorem Reached.sound
    (h : Reached id s₀ w) (hempty : s₀.IsEmpty) (hready : s₀.IsReady)
    (hfresh : w.log.created.Nodup) : Sound id s₀ w := by
  induction h with
  | start => exact sound_start id s₀
  | @move w _ m ih =>
      cases m with
      | other r => exact (ih (Log.nodup_created_of_append hfresh)).call hready r
      | poll permitted =>
          simp only [Watch.move, log_poll] at hfresh
          have hbefore := Log.nodup_created_of_append hfresh
          have hsound := ih hbefore
          exact hsound.poll hready (hsound.history.accounts hempty hready hbefore) permitted

end Watch

/-- Where nothing is dropped, the client has received all that was due. -/
theorem Watch.Sound.received_eq_due
    {id : Text} {s₀ : Store} {w : Watch} (h : w.Sound id s₀) (hready : s₀.IsReady)
    (haccounts : Accounts w.log w.store) (hunlimited : s₀.IsUnlimited) : w.received = w.due := by
  have hdue : (w.due.map (·.seq)).Pairwise (· < ·) :=
    (haccounts.numbered.ascending id).1.sublist (h.due.sublist.map _)
  refine eq_of_ascending h.ascending hdue fun u => ⟨h.received u, fun hu => h.complete u ?_⟩
  rwa [(h.history.isLike hready).kept, hunlimited.kept]

/-- A polling client receives the updates of the job in order and none of them twice.
It receives all that had been added when it was last answered, or, where old updates
are dropped, all that the store held when it was answered; and it is answered whenever
the job is there. -/
theorem polling_exact
    {s₀ : Store} (hempty : s₀.IsEmpty) (hready : s₀.IsReady) (id : Text) {w : Watch}
    (h : w.Reached id s₀) (hfresh : w.log.created.Nodup) :
    (w.received.map (·.seq)).Pairwise (· < ·) ∧ w.received.Nodup ∧
      (∀ u ∈ w.received, u ∈ w.log.appended id) ∧
      (∀ u ∈ w.retained, u ∈ w.received) ∧
      (s₀.IsUnlimited → w.received = w.due) ∧
      ∀ e, w.store.table.find? id = some e →
        (w.poll id true).due = w.log.appended id ∧
          (w.poll id true).retained = w.retained ++ e.updates := by
  have hsound := h.sound hempty hready hfresh
  have haccounts := hsound.history.accounts hempty hready hfresh
  refine ⟨hsound.ascending, nodup_of_ascending hsound.ascending, ?_, hsound.retained,
    hsound.received_eq_due hready haccounts, ?_⟩
  · intro u hu
    exact hsound.due.subset (hsound.received u hu)
  · intro e hfind
    exact Watch.poll_answered (hsound.ready hready) hfind

/-- Two updates, with one of another job between them, arrive by two polls. -/
theorem polling_exact_two_updates :
    ∃ w : Watch, w.Reached "a" (memory {}) ∧ w.log.created.Nodup ∧
      (memory {}).IsEmpty ∧ (memory {}).IsReady ∧ (memory {}).IsUnlimited ∧
      w.received = w.due ∧ w.due = [⟨1, .info, "x", 3⟩, ⟨3, .success, "z", 6⟩] ∧
      w.received.Nodup := by
  have hreached : Watch.Reached "a" (memory {}) _ :=
    ((((((Watch.Reached.start.move (.other ⟨true, .create 1 "a"⟩)).move
      (.other ⟨true, .create 2 "b"⟩)).move (.other ⟨true, .append 3 "a" .info "x"⟩)).move
      (.poll true)).move (.other ⟨true, .append 4 "b" .info "y"⟩)).move
      (.other ⟨true, .append 6 "a" .success "z"⟩)).move (.poll true)
  have hempty : (memory {}).IsEmpty := rfl
  have hready : (memory {}).IsReady := trivial
  have hunlimited : (memory {}).IsUnlimited := Int.le_refl 0
  obtain ⟨-, hnodup, -, -, hexact, -⟩ := polling_exact hempty hready "a" hreached (by decide)
  exact ⟨_, hreached, by decide, hempty, hready, hunlimited, hexact hunlimited, rfl, hnodup⟩

end Population.Store
