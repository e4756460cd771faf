import Population.Bus
import Mathlib.Data.List.Nodup

/-!
# What a subscriber hears

Unless a handler publishes again, a publication on an open bus calls the handler of
every subscription that is for the event once, whatever the handlers do meanwhile.
Subscriptions only become fewer and a closed bus stays closed, so whoever is still
subscribed has heard everything that was published.
-/

namespace Population.Bus

/-- The bus after an event was published or refused. -/
def announced (b : Bus) (e : Event) : Bus :=
  match b.publish e with
  | .ok b' => b'
  | .error _ => b

/-- The updates of a job that a subscriber has received. -/
def heard (b : Bus) (sub : Subscription) (job : Text) : List Progress :=
  (b.delivered.filter fun d => d.subscription = sub ∧ d.event.job = job).map (·.event.update)

/-- No handler publishes again what it receives. -/
def IsPlain (b : Bus) : Prop :=
  ∀ s ∈ b.subscriptions, s.reaction ≠ .echo

/-- Nothing but the end of subscriptions and of the bus lies between the two. -/
structure Narrows (b b' : Bus) : Prop where
  subscriptions : b'.subscriptions.Sublist b.subscriptions
  closed : b.isClosed = true → b'.isClosed = true

theorem Narrows.refl (b : Bus) : b.Narrows b :=
  ⟨.refl _, id⟩

theorem Narrows.trans {b b' b'' : Bus} (h : b.Narrows b') (h' : b'.Narrows b'') :
    b.Narrows b'' :=
  ⟨h'.subscriptions.trans h.subscriptions, fun hclosed => h'.closed (h.closed hclosed)⟩

theorem Narrows.isPlain {b b' : Bus} (h : b.Narrows b') (hplain : b.IsPlain) : b'.IsPlain :=
  fun s hs => hplain s (h.subscriptions.subset hs)

/-! ## Handlers -/

theorem narrows_drop (b : Bus) (id : Text) : b.Narrows (b.drop id) :=
  ⟨List.eraseP_sublist, fun hclosed => hclosed⟩

/-- Taking note of a call leaves the subscriptions. -/
theorem Narrows.noted {b b' : Bus} {ds : List Delivery}
    (h : Narrows { b with delivered := ds } b') : b.Narrows b' :=
  ⟨h.subscriptions, h.closed⟩

theorem narrows_foldl_drop (ids : List Text) (b : Bus) :
    b.Narrows (ids.foldl drop b) ∧ (ids.foldl drop b).delivered = b.delivered := by
  induction ids generalizing b with
  | nil => exact ⟨.refl b, rfl⟩
  | cons id rest ih =>
      obtain ⟨hnarrows, hdelivered⟩ := ih (b.drop id)
      exact ⟨(narrows_drop b id).trans hnarrows, hdelivered⟩

theorem narrows_behave (c : Conduct) (s : Subscription) (e : Event) (b : Bus) :
    b.Narrows (behave c s e b) ∧ (behave c s e b).delivered = b.delivered := by
  obtain ⟨hnarrows, hdelivered⟩ := narrows_foldl_drop c.ends b
  unfold behave
  simp only
  split
  · exact ⟨⟨hnarrows.subscriptions, hnarrows.closed⟩, hdelivered⟩
  · exact ⟨hnarrows, hdelivered⟩

/-- A handler that does not publish again is called once. -/
theorem narrows_deliver
    (again : Event → Bus → Bus) (e : Event) (b : Bus) {s : Subscription}
    (hs : s.reaction ≠ .echo) :
    b.Narrows (deliver again e b s) ∧
      (deliver again e b s).delivered = b.delivered ++ [⟨s, e⟩] := by
  simp only [deliver]
  split
  next => exact ⟨⟨.refl _, id⟩, rfl⟩
  next => exact ⟨⟨.refl _, id⟩, rfl⟩
  next => exact ⟨(narrows_drop _ s.id).noted, rfl⟩
  next ids _ =>
    obtain ⟨hnarrows, hdelivered⟩ :=
      narrows_foldl_drop ids { b with delivered := b.delivered ++ [⟨s, e⟩] }
    exact ⟨hnarrows.noted, hdelivered⟩
  next hreaction => exact absurd hreaction hs
  next => exact ⟨⟨List.nil_sublist _, fun _ => rfl⟩, rfl⟩
  next =>
    split
    next c _ =>
      obtain ⟨hnarrows, hdelivered⟩ :=
        narrows_behave c s e { b with delivered := b.delivered ++ [⟨s, e⟩] }
      exact ⟨hnarrows.noted, hdelivered⟩
    next => exact ⟨⟨.refl _, id⟩, rfl⟩

theorem narrows_foldl_deliver
    (again : Event → Bus → Bus) (e : Event) (b : Bus) {subs : List Subscription}
    (hsubs : ∀ s ∈ subs, s.reaction ≠ .echo) :
    b.Narrows (subs.foldl (deliver again e) b) ∧
      (subs.foldl (deliver again e) b).delivered = b.delivered ++ subs.map (⟨·, e⟩) := by
  induction subs generalizing b with
  | nil => exact ⟨.refl b, by simp⟩
  | cons s rest ih =>
      obtain ⟨hfirst, hcall⟩ := narrows_deliver again e b (hsubs s List.mem_cons_self)
      obtain ⟨hrest, hcalls⟩ := ih (deliver again e b s)
        fun s' hs' => hsubs s' (List.mem_cons_of_mem _ hs')
      refine ⟨hfirst.trans hrest, ?_⟩
      rw [List.foldl_cons, hcalls, hcall, List.map_cons, List.append_assoc]
      rfl

/-! ## Publications -/

section Publication

variable {b : Bus} (e : Event)

theorem announced_of_closed (hclosed : b.isClosed = true) : b.announced e = b := by
  simp [announced, publish, hclosed]

/-- Those who are subscribed now and whom the event concerns are called in turn. -/
theorem exists_announced_eq (hopen : b.isClosed = false) :
    ∃ again, b.announced e = (b.subscriptions.filter (·.covers e)).foldl (deliver again e) b := by
  rw [announced, publish, hopen]
  simp only [Bool.false_eq_true, if_false]
  rw [publishTo, if_neg (by simp [hopen])]
  exact ⟨_, rfl⟩

theorem narrows_announced (hplain : b.IsPlain) : b.Narrows (b.announced e) := by
  cases hclosed : b.isClosed with
  | true =>
      rw [announced_of_closed e hclosed]
      exact .refl b
  | false =>
      obtain ⟨again, heq⟩ := exists_announced_eq e hclosed
      rw [heq]
      exact (narrows_foldl_deliver again e b fun s hs => hplain s (List.mem_filter.mp hs).1).1

theorem delivered_announced (hplain : b.IsPlain) (hopen : b.isClosed = false) :
    (b.announced e).delivered =
      b.delivered ++ (b.subscriptions.filter (·.covers e)).map (⟨·, e⟩) := by
  obtain ⟨again, heq⟩ := exists_announced_eq e hopen
  rw [heq]
  exact (narrows_foldl_deliver again e b fun s hs => hplain s (List.mem_filter.mp hs).1).2

end Publication

/-- Whoever is subscribed hears an event about the job, and no other. -/
theorem heard_announced
    {b : Bus} {sub : Subscription} {id job : Text} {u : Progress} (hplain : b.IsPlain)
    (hopen : b.isClosed = false) (honce : b.subscriptions.Nodup) (hmem : sub ∈ b.subscriptions)
    (hcovers : sub.job = allJobs ∨ sub.job = job) :
    (b.announced ⟨id, u⟩).heard sub job =
      b.heard sub job ++ if id = job then [u] else [] := by
  rw [heard, delivered_announced _ hplain hopen, List.filter_append, List.map_append,
    List.filter_map, List.map_map, heard]
  congr 1
  by_cases hid : id = job
  · -- Of the handlers that are called, only the subscriber's own one counts.
    subst hid
    have hmem : sub ∈ b.subscriptions.filter (·.covers ⟨id, u⟩) := by
      rw [List.mem_filter]
      exact ⟨hmem, by simpa [Subscription.covers] using hcovers⟩
    have hown : ((fun d : Delivery => decide (d.subscription = sub ∧ d.event.job = id)) ∘
        fun s => ⟨s, ⟨id, u⟩⟩) = (· == sub) := by
      funext s
      simp [beq_eq_decide]
    rw [hown, List.filter_beq, List.count_eq_one_of_mem (honce.filter _) hmem, if_pos rfl]
    rfl
  · have hnone : ((fun d : Delivery => decide (d.subscription = sub ∧ d.event.job = job)) ∘
        fun s => ⟨s, ⟨id, u⟩⟩) = fun _ => false := by
      funext s
      simp [hid]
    rw [hnone, List.filter_false, if_neg hid]
    rfl

end Population.Bus
