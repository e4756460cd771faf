import Population.Proofs.Bus.History

/-!
# Exactly one delivery for each subscription

A publication that starts while the bus is open calls the handler of every subscription
that is registered and for which the event is, once and in order of subscription, and
nothing else calls a handler.  Handlers that fail can be replaced by such that do not,
and every delivery stays: what a handler ends does not depend on whether it fails.
-/

namespace Population

/-- A handler that does not fail, and does otherwise the same. -/
def Reaction.calm : Reaction → Reaction
  | .crash => .listen
  | .vary conducts => .vary (conducts.map fun c => { c with fails := false })
  | r => r

/-- A subscription whose handler does not fail. -/
def Subscription.calm (s : Subscription) : Subscription :=
  { s with reaction := s.reaction.calm }

/-- A call of a handler that does not fail. -/
def Delivery.calm (d : Delivery) : Delivery :=
  { d with subscription := d.subscription.calm }

namespace Bus

/-- The same call with a handler that does not fail. -/
def Call.calm : Call → Call
  | .subscribe id job handler => .subscribe id job (handler.map Reaction.calm)
  | .unsubscribe id => .unsubscribe id
  | .publish e => .publish e
  | .close => .close

variable {handlers : Handlers} {calls : List Call}

/-! ## Handlers that fail -/

theorem ends_calm (s : Subscription) (n : Nat) : (s.calm.conduct n).ends = (s.conduct n).ends := by
  unfold Subscription.conduct Subscription.calm
  cases s.reaction with
  | vary conducts =>
      simp only [Reaction.calm, List.getElem?_map]
      cases conducts[n]? <;> rfl
  | _ => rfl

theorem timesCalled_calm (ds : List Delivery) (s : Subscription) :
    timesCalled (ds.map Delivery.calm) s.calm = timesCalled ds s := by
  rw [timesCalled, List.countP_map]
  rfl

theorem endings_calm (past ds : List Delivery) :
    endings (past.map Delivery.calm) (ds.map Delivery.calm) = endings past ds := by
  induction ds generalizing past with
  | nil => rfl
  | cons d rest ih =>
      have hpast : past.map Delivery.calm ++ [d.calm] = (past ++ [d]).map Delivery.calm := by simp
      rw [List.map_cons, endings, endings, hpast, ih]
      congr 1
      rw [Delivery.calm, timesCalled_calm, ends_calm]

theorem withoutIds_calm (ids : List Text) (subscriptions : List Subscription) :
    withoutIds ids (subscriptions.map Subscription.calm) =
      (withoutIds ids subscriptions).map Subscription.calm := by
  induction ids generalizing subscriptions with
  | nil => rfl
  | cons id rest ih =>
      have hfirst : (subscriptions.map Subscription.calm).eraseP (·.id == id) =
          (subscriptions.eraseP (·.id == id)).map Subscription.calm := by
        rw [List.eraseP_map]
        rfl
      exact (congrArg (withoutIds rest) hfirst).trans (ih _)

/-- The second bus is the first one with handlers that do not fail. -/
structure Calmed (b b' : Bus) : Prop where
  subscriptions : b'.subscriptions = b.subscriptions.map Subscription.calm
  isClosed : b'.isClosed = b.isClosed
  made : b'.made = b.made
  delivered : b'.delivered = b.delivered.map Delivery.calm

theorem Calmed.called
    {b₁ b₂ b₁' b₂' : Bus} {ds : List Delivery} (h : b₁.Calmed b₁') (hcalled : b₁.Called b₂ ds)
    (hcalled' : b₁'.Called b₂' (ds.map Delivery.calm)) : b₂.Calmed b₂' where
  subscriptions := by
    rw [hcalled'.subscriptions, hcalled.subscriptions, h.subscriptions, h.delivered,
      endings_calm, withoutIds_calm]
  isClosed := by rw [hcalled'.isClosed, hcalled.isClosed, h.isClosed]
  made := by rw [hcalled'.made, hcalled.made, h.made]
  delivered := by rw [hcalled'.delivered, hcalled.delivered, h.delivered, List.map_append]

theorem Calmed.subscribe
    {b b' : Bus} (h : b.Calmed b') (id job : Text) (handler : Option Reaction) :
    (b.after (.subscribe id job handler)).Calmed
      (b'.after (.subscribe id job (handler.map Reaction.calm))) := by
  cases handler with
  | none => exact h
  | some r =>
      simp only [Option.map_some, Bus.after, answer, Bus.subscribe, h.isClosed, h.made]
      cases job.isEmpty with
      | true => exact h
      | false =>
          cases b.isClosed with
          | true => exact h
          | false =>
              simp only [Bool.false_eq_true, if_false]
              refine ⟨?_, rfl, rfl, h.delivered⟩
              simp [h.subscriptions, Subscription.calm]

theorem Calmed.after
    {b b' : Bus} (h : b.Calmed b') (hb : b.IsSound) (hb' : b'.IsSound) (c : Call) :
    (b.after c).Calmed (b'.after c.calm) := by
  cases c with
  | subscribe id job handler => exact h.subscribe id job handler
  | unsubscribe id =>
      have hdropped := withoutIds_calm [id] b.subscriptions
      rw [← h.subscriptions] at hdropped
      rw [Call.calm, after_unsubscribe, after_unsubscribe]
      exact ⟨hdropped, h.isClosed, h.made, h.delivered⟩
  | publish e =>
      have hcalled := called_publish hb' e
      have hsnapshot : (b'.subscriptions.filter (·.covers e)).map (fun s => (⟨s, e⟩ : Delivery)) =
          ((b.subscriptions.filter (·.covers e)).map (fun s => ⟨s, e⟩)).map Delivery.calm := by
        rw [h.subscriptions, List.filter_map, List.map_map, List.map_map]
        rfl
      rw [hsnapshot] at hcalled
      exact h.called (called_publish hb e) hcalled
  | close =>
      rw [Call.calm, after_close hb, after_close hb']
      exact ⟨rfl, rfl, h.made, h.delivered⟩

theorem Calmed.deliveries
    {b b' : Bus} (h : b.Calmed b') {c : Call} (hafter : (b.after c).Calmed (b'.after c.calm)) :
    b'.deliveries c.calm = (b.deliveries c).map Delivery.calm := by
  rw [Bus.deliveries, Bus.deliveries, hafter.delivered, h.delivered, List.length_map,
    List.map_drop]

theorem Call.isModest_calm {c : Call} (h : c.IsModest) : c.calm.IsModest := by
  cases c with
  | subscribe id job handler =>
      cases handler with
      | none => trivial
      | some r =>
          have hcalm : r.calm.IsModest ↔ r.IsModest := by
            cases r <;> simp [Reaction.calm, Reaction.IsModest]
          exact hcalm.mpr h
  | _ => trivial

theorem Call.drawn?_calm (c : Call) : c.calm.drawn? = c.drawn? := by
  cases c with
  | subscribe id job handler => cases handler <;> rfl
  | _ => rfl

section Calm

variable (hmodest : ∀ c ∈ calls, c.IsModest) (hids : (calls.filterMap Call.drawn?).Nodup)

include hmodest hids

theorem tracks_calm {i : Nat} (hi : i ≤ calls.length) :
    Tracks handlers (calls.map Call.calm) i := by
  refine tracks handlers ?_ ?_ (by rwa [List.length_map])
  · intro c hc
    obtain ⟨c', hc', rfl⟩ := List.mem_map.mp hc
    exact Call.isModest_calm (hmodest c' hc')
  · rw [List.filterMap_map]
    simpa only [Function.comp_def, Call.drawn?_calm] using hids

theorem calmed_busAt {i : Nat} (hi : i ≤ calls.length) :
    (busAt handlers calls i).Calmed (busAt handlers (calls.map Call.calm) i) := by
  induction i with
  | zero => exact ⟨rfl, rfl, rfl, rfl⟩
  | succ i ih =>
      have hcall : calls[i]? = some calls[i] := List.getElem?_eq_getElem hi
      have hcall' : (calls.map Call.calm)[i]? = some calls[i].calm := by
        rw [List.getElem?_map, hcall, Option.map_some]
      rw [busAt_succ hcall, busAt_succ hcall']
      exact (ih (by omega)).after (tracks handlers hmodest hids (by omega)).sound
        (tracks_calm hmodest hids (by omega)).sound _

/-- A handler that fails changes no delivery. -/
theorem deliveredAt_calm (i : Nat) :
    deliveredAt handlers (calls.map Call.calm) i =
      (deliveredAt handlers calls i).map Delivery.calm := by
  cases hcall : calls[i]? with
  | none => simp [deliveredAt, hcall]
  | some c =>
      have hi : i < calls.length := (List.getElem?_eq_some_iff.mp hcall).1
      have hcall' : (calls.map Call.calm)[i]? = some c.calm := by
        rw [List.getElem?_map, hcall, Option.map_some]
      have hafter : (busAt handlers calls (i + 1)).Calmed
          (busAt handlers (calls.map Call.calm) (i + 1)) := calmed_busAt hmodest hids hi
      rw [busAt_succ hcall, busAt_succ hcall'] at hafter
      rw [deliveredAt_eq hcall, deliveredAt_eq hcall']
      exact (calmed_busAt hmodest hids (Nat.le_of_lt hi)).deliveries hafter

end Calm

/-! ## The whole history -/

/-- Deliveries are exactly once and ordered. -/
structure DeliversExactly (handlers : Handlers) (calls : List Call) : Prop where
  /-- A handler is called during a publication if it is registered and the event is for
  it, and for nothing else. -/
  called_iff : ∀ i s e, ⟨s, e⟩ ∈ deliveredAt handlers calls i ↔
    calls[i]? = some (.publish e) ∧ Registered handlers calls i s ∧
      (s.job = allJobs ∨ s.job = e.job)
  /-- During one publication each handler is called once, in order of subscription. -/
  inOrder : ∀ i,
    (deliveredAt handlers calls i).Pairwise
      fun d d' => d.subscription.number < d'.subscription.number
  /-- Subscriptions are numbered in the order in which they are made. -/
  numbered : ∀ {i j s s'}, MadeAt calls i s → MadeAt calls j s' → i < j → s.number < s'.number
  /-- Handler calls follow the order of the publications. -/
  delivered_eq : ∀ i ≤ calls.length,
    (busAt handlers calls i).delivered = (List.range i).flatMap (deliveredAt handlers calls)
  /-- Handlers that fail change no delivery. -/
  isolated : ∀ i,
    deliveredAt handlers (calls.map Call.calm) i =
      (deliveredAt handlers calls i).map Delivery.calm
  /-- On an open bus subscriptions, publications and the first end of the bus succeed. -/
  answered : ∀ {i c}, calls[i]? = some c → c.needsOpen = true → OpenAt calls i →
    (busAt handlers calls i).answer c = .ok (busAt handlers calls (i + 1))
  /-- After the end of the bus they are refused. -/
  refused : ∀ {i c}, calls[i]? = some c → c.needsOpen = true → ¬OpenAt calls i →
    (busAt handlers calls i).answer c = .error .closed

/-- Whatever is asked of a bus whose handlers do no more than end subscriptions and fail,
deliveries are exactly once and ordered, provided that identifiers are drawn once. -/
theorem deliversExactly
    (handlers : Handlers) (hmodest : ∀ c ∈ calls, c.IsModest)
    (hids : (calls.filterMap Call.drawn?).Nodup) :
    DeliversExactly handlers calls where
  called_iff := by
    intro i s e
    cases hcall : calls[i]? with
    | none => simp [deliveredAt, hcall]
    | some c =>
        have htracks := tracks_of_getElem? handlers hmodest hids hcall
        rw [deliveredAt_eq hcall, mem_deliveries_iff htracks.sound, htracks.mem_iff,
          Option.some.injEq, Subscription.covers, Bool.or_eq_true, beq_iff_eq, beq_iff_eq]
  inOrder := by
    intro i
    cases hcall : calls[i]? with
    | none => simp [deliveredAt, hcall]
    | some c =>
        have htracks := tracks_of_getElem? handlers hmodest hids hcall
        rw [deliveredAt_eq hcall]
        exact deliveries_sorted htracks.sound c
  numbered := MadeAt.number_lt
  delivered_eq := fun _ => delivered_busAt hmodest hids
  isolated := deliveredAt_calm hmodest hids
  answered := by
    intro i c hcall hneeds hopen
    have htracks := tracks_of_getElem? handlers hmodest hids hcall
    rw [busAt_succ hcall]
    exact answer_of_open hneeds (htracks.isOpen_iff.mpr hopen)
  refused := by
    intro i c hcall hneeds hclosed
    have htracks := tracks_of_getElem? handlers hmodest hids hcall
    rw [← htracks.isOpen_iff, Bool.not_eq_false] at hclosed
    exact answer_of_closed hneeds hclosed

/-- Three subscribers.  The first one ends the second subscription in its second call,
the second one fails, and the third one leaves in its first call. -/
def trio : List Call :=
  [.subscribe "a" "job" (some (.vary [{}, { ends := ["b"] }])),
    .subscribe "b" allJobs (some .crash), .subscribe "c" "job" (some .leave),
    .publish ⟨"job", ⟨1, .info, "x", 0⟩⟩, .publish ⟨"job", ⟨2, .info, "y", 0⟩⟩,
    .publish ⟨"other", ⟨3, .info, "z", 0⟩⟩, .publish ⟨"job", ⟨4, .info, "u", 0⟩⟩,
    .unsubscribe "a", .close, .publish ⟨"job", ⟨5, .info, "v", 0⟩⟩]

/-- The second subscriber still hears the event during which it is removed. -/
theorem deliversExactly_trio :
    (∀ c ∈ trio, c.IsModest) ∧ (trio.filterMap Call.drawn?).Nodup ∧
      DeliversExactly .countdown trio ∧
      (List.range 10).map (fun i => (deliveredAt .countdown trio i).map (·.subscription.number)) =
        [[], [], [], [1, 2, 3], [1, 2], [], [1], [], [], []] :=
  ⟨by decide, by decide, deliversExactly .countdown (by decide) (by decide), by decide +kernel⟩

end Bus

end Population
