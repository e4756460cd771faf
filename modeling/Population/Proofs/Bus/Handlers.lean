import Population.Proofs.Bus.Delivery

/-!
# Handlers that end subscriptions or fail

A handler that neither publishes again nor closes the bus can only end subscriptions and
fail.  What it ends depends on itself and on how often it has been called before, so the
deliveries of a publication determine which subscriptions are left after it.
-/

namespace Population

/-- The handler neither publishes again nor closes the bus. -/
def Reaction.IsModest (r : Reaction) : Prop :=
  r ≠ .echo ∧ r ≠ .close

instance : DecidablePred Reaction.IsModest :=
  fun _ => inferInstanceAs (Decidable (_ ∧ _))

/-- What the handler of a subscription does in the call with number `n`, counted from
zero. -/
def Subscription.conduct (s : Subscription) (n : Nat) : Conduct :=
  match s.reaction with
  | .crash => { fails := true }
  | .leave => { ends := [s.id] }
  | .remove ids => { ends := ids }
  | .vary conducts => (conducts[n]?).getD {}
  | .listen | .echo | .close => {}

namespace Bus

/-- Ends the subscriptions with these identifiers, one after the other. -/
def withoutIds (ids : List Text) (subscriptions : List Subscription) : List Subscription :=
  ids.foldl (fun subs id => subs.eraseP (·.id == id)) subscriptions

theorem withoutIds_append (ids ids' : List Text) (subscriptions : List Subscription) :
    withoutIds (ids ++ ids') subscriptions = withoutIds ids' (withoutIds ids subscriptions) :=
  List.foldl_append

theorem withoutIds_sublist (ids : List Text) (subscriptions : List Subscription) :
    (withoutIds ids subscriptions).Sublist subscriptions := by
  induction ids generalizing subscriptions with
  | nil => exact .refl _
  | cons id rest ih => exact (ih _).trans List.eraseP_sublist

/-- Where identifiers are distinct, ending a subscription leaves all others. -/
theorem mem_eraseP_iff
    {subscriptions : List Subscription} (hdistinct : (subscriptions.map (·.id)).Nodup)
    {id : Text} {s : Subscription} :
    s ∈ subscriptions.eraseP (·.id == id) ↔ s ∈ subscriptions ∧ s.id ≠ id := by
  induction subscriptions with
  | nil => simp
  | cons u rest ih =>
      obtain ⟨hfresh, hrest⟩ := List.nodup_cons.mp hdistinct
      by_cases hid : u.id = id
      · rw [List.eraseP_cons_of_pos (by simpa using hid), List.mem_cons]
        constructor
        · intro hs
          exact ⟨.inr hs, fun heq => hfresh (List.mem_map.mpr ⟨s, hs, heq.trans hid.symm⟩)⟩
        · rintro ⟨rfl | hs, hne⟩
          · exact absurd hid hne
          · exact hs
      · rw [List.eraseP_cons_of_neg (by simpa using hid), List.mem_cons, ih hrest, List.mem_cons]
        constructor
        · rintro (rfl | ⟨hs, hne⟩)
          · exact ⟨.inl rfl, hid⟩
          · exact ⟨.inr hs, hne⟩
        · rintro ⟨rfl | hs, hne⟩
          · exact .inl rfl
          · exact .inr ⟨hs, hne⟩

theorem mem_withoutIds_iff
    {subscriptions : List Subscription} (hdistinct : (subscriptions.map (·.id)).Nodup)
    {ids : List Text} {s : Subscription} :
    s ∈ withoutIds ids subscriptions ↔ s ∈ subscriptions ∧ s.id ∉ ids := by
  induction ids generalizing subscriptions with
  | nil => simp [withoutIds]
  | cons id rest ih =>
      have hleft : ((subscriptions.eraseP (·.id == id)).map (·.id)).Nodup :=
        hdistinct.sublist (List.eraseP_sublist.map _)
      have hfirst : withoutIds (id :: rest) subscriptions =
          withoutIds rest (subscriptions.eraseP (·.id == id)) := rfl
      rw [hfirst, ih hleft, mem_eraseP_iff hdistinct, List.mem_cons, not_or, and_assoc]

/-- The subscriptions that handlers end in a sequence of calls, given the calls before. -/
def endings (past : List Delivery) : List Delivery → List Text
  | [] => []
  | d :: ds =>
    (d.subscription.conduct (timesCalled past d.subscription)).ends ++ endings (past ++ [d]) ds

/-- Handlers were called in this order, and nothing else happened. -/
structure Called (b b' : Bus) (ds : List Delivery) : Prop where
  delivered : b'.delivered = b.delivered ++ ds
  subscriptions : b'.subscriptions = withoutIds (endings b.delivered ds) b.subscriptions
  isClosed : b'.isClosed = b.isClosed
  made : b'.made = b.made

theorem called_nil (b : Bus) : b.Called b [] :=
  ⟨by simp, rfl, rfl, rfl⟩

theorem Called.cons
    {b b' b'' : Bus} {d : Delivery} {ds : List Delivery} (h : b.Called b' [d])
    (h' : b'.Called b'' ds) : b.Called b'' (d :: ds) where
  delivered := by rw [h'.delivered, h.delivered, List.append_assoc, List.singleton_append]
  subscriptions := by
    rw [h'.subscriptions, h.subscriptions, h.delivered, ← withoutIds_append]
    simp [endings]
  isClosed := h'.isClosed.trans h.isClosed
  made := h'.made.trans h.made

theorem foldl_drop_eq (ids : List Text) (b : Bus) :
    ids.foldl drop b = { b with subscriptions := withoutIds ids b.subscriptions } := by
  induction ids generalizing b with
  | nil => rfl
  | cons id rest ih => exact ih (b.drop id)

theorem exists_behave_eq (c : Conduct) (s : Subscription) (e : Event) (b : Bus) :
    ∃ logs, behave c s e b =
      { b with subscriptions := withoutIds c.ends b.subscriptions, logs := logs } := by
  unfold behave
  rw [foldl_drop_eq]
  cases c.fails with
  | false => exact ⟨b.logs, rfl⟩
  | true => exact ⟨_, rfl⟩

/-- Each way to handle an event is a conduct. -/
theorem exists_deliver_eq
    (again : Event → Bus → Bus) (e : Event) (b : Bus) {s : Subscription}
    (hs : s.reaction.IsModest) :
    ∃ logs, deliver again e b s =
      { b with
        delivered := b.delivered ++ [⟨s, e⟩]
        subscriptions :=
          withoutIds (s.conduct (timesCalled b.delivered s)).ends b.subscriptions
        logs := logs } := by
  obtain ⟨hecho, hclose⟩ := hs
  unfold deliver Subscription.conduct
  cases hreaction : s.reaction with
  | listen => exact ⟨b.logs, rfl⟩
  | crash => exact ⟨_, rfl⟩
  | leave => exact ⟨b.logs, rfl⟩
  | remove ids => exact ⟨b.logs, foldl_drop_eq ids _⟩
  | echo => exact absurd hreaction hecho
  | close => exact absurd hreaction hclose
  | vary conducts =>
      simp only
      cases conducts[timesCalled b.delivered s]? with
      | none => exact ⟨b.logs, rfl⟩
      | some c => exact exists_behave_eq c s e _

theorem called_deliver
    (again : Event → Bus → Bus) (e : Event) (b : Bus) {s : Subscription}
    (hs : s.reaction.IsModest) : b.Called (deliver again e b s) [⟨s, e⟩] := by
  obtain ⟨logs, hdeliver⟩ := exists_deliver_eq again e b hs
  rw [hdeliver]
  exact ⟨rfl, by simp [endings], rfl, rfl⟩

/-- The subscriptions of a snapshot are called one after the other, also those that are
ended meanwhile. -/
theorem called_foldl_deliver
    (again : Event → Bus → Bus) (e : Event) (b : Bus) {snapshot : List Subscription}
    (hmodest : ∀ s ∈ snapshot, s.reaction.IsModest) :
    b.Called (snapshot.foldl (deliver again e) b) (snapshot.map (⟨·, e⟩)) := by
  induction snapshot generalizing b with
  | nil => exact called_nil b
  | cons s rest ih =>
      have hfirst := called_deliver again e b (hmodest s List.mem_cons_self)
      exact hfirst.cons (ih _ fun s' hs' => hmodest s' (List.mem_cons_of_mem _ hs'))

end Bus

end Population
