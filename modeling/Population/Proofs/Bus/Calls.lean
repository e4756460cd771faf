import Population.Proofs.Bus.Handlers

/-!
# The calls of a bus

What one call does to a bus whose handlers end subscriptions or fail and do nothing else.
The registered subscriptions have identifiers of their own and stand in the order in
which they were made.  A publication calls those for which the event is, one after the
other; no other call leads to handler calls.  After a call those are registered who were
before and whom the call does not end, and the one that it makes.
-/

namespace Population.Bus

/-- A call of the bus. -/
inductive Call where
  | subscribe (id job : Text) (handler : Option Reaction)
  | unsubscribe (id : Text)
  | publish (e : Event)
  | close
  deriving DecidableEq

namespace Call

/-- The identifier that is drawn when a handler and a job are given. -/
def drawn? : Call → Option Text
  | subscribe id job (some _) => if job.isEmpty then none else some id
  | _ => none

/-- What handler is given neither publishes again nor closes the bus. -/
def IsModest : Call → Prop
  | subscribe _ _ (some r) => r.IsModest
  | _ => True

instance : DecidablePred IsModest
  | subscribe _ _ (some r) => inferInstanceAs (Decidable r.IsModest)
  | subscribe _ _ none | unsubscribe _ | publish _ | close => .isTrue trivial

/-- Whether a closed bus refuses the call as closed. -/
def needsOpen : Call → Bool
  | subscribe _ job (some _) => !job.isEmpty
  | publish _ | close => true
  | subscribe _ _ none | unsubscribe _ => false

end Call

/-- The answer of the bus to a call. -/
def answer (b : Bus) : Call → Except BusError Bus
  | .subscribe id job handler => b.subscribe id job handler
  | .unsubscribe id => b.unsubscribe id
  | .publish e => b.publish e
  | .close => b.close

/-- The bus after a call; a refused call leaves it as it is. -/
def after (b : Bus) (c : Call) : Bus :=
  match b.answer c with
  | .ok b' => b'
  | .error _ => b

/-- The handler calls that a call of the bus leads to. -/
def deliveries (b : Bus) (c : Call) : List Delivery :=
  (b.after c).delivered.drop b.delivered.length

/-! ## One call -/

/-- A call makes a subscription. -/
structure Makes (b : Bus) (c : Call) (s : Subscription) : Prop where
  call : c = .subscribe s.id s.job (some s.reaction)
  job : s.job.isEmpty = false
  isOpen : b.isClosed = false
  number : s.number = b.made + 1

/-- A subscription with this identifier is ended during a call, by the call or by a
handler that is called. -/
def Ends (b : Bus) (c : Call) (id : Text) : Prop :=
  c = .unsubscribe id ∨ id ∈ endings b.delivered (b.deliveries c)

/-- The state of a bus whose handlers are modest and whose identifiers are distinct. -/
structure IsSound (b : Bus) : Prop where
  modest : ∀ s ∈ b.subscriptions, s.reaction.IsModest
  distinct : (b.subscriptions.map (·.id)).Nodup
  sorted : b.subscriptions.Pairwise (·.number < ·.number)
  numbered : ∀ s ∈ b.subscriptions, s.number ≤ b.made
  closed : b.isClosed = true → b.subscriptions = []

section Step

variable {b : Bus}

theorem after_of_ok {c : Call} {b' : Bus} (h : b.answer c = .ok b') : b.after c = b' := by
  rw [after, h]

theorem after_of_error {c : Call} (err : BusError) (h : b.answer c = .error err) :
    b.after c = b := by
  rw [after, h]

theorem deliveries_of_delivered {c : Call} {ds : List Delivery}
    (h : (b.after c).delivered = b.delivered ++ ds) : b.deliveries c = ds := by
  rw [deliveries, h, List.drop_left]

/-- A subscription is made, or nothing happens. -/
theorem subscribe_cases (b : Bus) (id job : Text) (handler : Option Reaction) :
    (∃ s, b.Makes (.subscribe id job handler) s ∧
        b.after (.subscribe id job handler) =
          { b with made := b.made + 1, subscriptions := b.subscriptions ++ [s] }) ∨
      (∀ s, ¬b.Makes (.subscribe id job handler) s) ∧
        b.after (.subscribe id job handler) = b := by
  cases handler with
  | none => exact .inr ⟨fun s h => (by cases h.call), rfl⟩
  | some r =>
      cases hjob : job.isEmpty with
      | true =>
          refine .inr ⟨fun s h => ?_, after_of_error .noJob (by simp [answer, subscribe, hjob])⟩
          rw [(Call.subscribe.inj h.call).2.1, h.job] at hjob
          cases hjob
      | false =>
          cases hclosed : b.isClosed with
          | true =>
              refine .inr ⟨fun s h => ?_, after_of_error .closed
                (by simp [answer, subscribe, hjob, hclosed])⟩
              rw [h.isOpen] at hclosed
              cases hclosed
          | false =>
              exact .inl ⟨⟨id, b.made + 1, job, r⟩, ⟨rfl, hjob, hclosed, rfl⟩,
                after_of_ok (by simp [answer, subscribe, hjob, hclosed])⟩

theorem after_unsubscribe (b : Bus) (id : Text) :
    b.after (.unsubscribe id) =
      { b with subscriptions := b.subscriptions.eraseP (·.id == id) } := by
  cases hany : b.subscriptions.any (·.id == id) with
  | true => exact after_of_ok (by simp only [answer, unsubscribe, hany, if_true])
  | false =>
      have hsame : b.subscriptions.eraseP (·.id == id) = b.subscriptions :=
        List.eraseP_of_forall_not fun s hs => List.any_eq_false.mp hany s hs
      rw [hsame]
      exact after_of_error (.noSubscription id)
        (by simp only [answer, unsubscribe, hany, Bool.false_eq_true, if_false])

theorem after_close (hb : b.IsSound) :
    b.after .close = { b with isClosed := true, subscriptions := [] } := by
  cases hclosed : b.isClosed with
  | true =>
      rw [after_of_error .closed (by simp [answer, close, hclosed]),
        ← hb.closed hclosed, ← hclosed]
  | false => exact after_of_ok (by simp [answer, close, hclosed])

/-- The registered subscriptions for the event are called. -/
theorem called_publish (hb : b.IsSound) (e : Event) :
    b.Called (b.after (.publish e)) ((b.subscriptions.filter (·.covers e)).map (⟨·, e⟩)) := by
  have hafter : b.after (.publish e) = b.announced e := rfl
  rw [hafter]
  cases hclosed : b.isClosed with
  | true =>
      rw [announced_of_closed e hclosed, hb.closed hclosed]
      exact called_nil b
  | false =>
      obtain ⟨again, heq⟩ := exists_announced_eq e hclosed
      rw [heq]
      exact called_foldl_deliver again e b fun s hs => hb.modest s (List.mem_filter.mp hs).1

theorem deliveries_publish (hb : b.IsSound) (e : Event) :
    b.deliveries (.publish e) = (b.subscriptions.filter (·.covers e)).map (⟨·, e⟩) :=
  deliveries_of_delivered (called_publish hb e).delivered

theorem delivered_after_other
    (hb : b.IsSound) {c : Call} (hother : ∀ e, c ≠ .publish e) :
    (b.after c).delivered = b.delivered := by
  cases c with
  | subscribe id job handler =>
      rcases subscribe_cases b id job handler with ⟨s, -, hafter⟩ | ⟨-, hafter⟩
      · rw [hafter]
      · rw [hafter]
  | unsubscribe id => rw [after_unsubscribe]
  | publish e => exact absurd rfl (hother e)
  | close => rw [after_close hb]

/-- Only publications call handlers. -/
theorem deliveries_other
    (hb : b.IsSound) {c : Call} (hother : ∀ e, c ≠ .publish e) : b.deliveries c = [] := by
  rw [deliveries, delivered_after_other hb hother, List.drop_length]

theorem delivered_after (hb : b.IsSound) (c : Call) :
    (b.after c).delivered = b.delivered ++ b.deliveries c := by
  by_cases hpublish : ∃ e, c = .publish e
  · obtain ⟨e, rfl⟩ := hpublish
    rw [deliveries_publish hb, (called_publish hb e).delivered]
  · have hother : ∀ e, c ≠ .publish e := fun e heq => hpublish ⟨e, heq⟩
    rw [delivered_after_other hb hother, deliveries_other hb hother, List.append_nil]

theorem mem_deliveries_iff (hb : b.IsSound) {c : Call} {s : Subscription} {e : Event} :
    ⟨s, e⟩ ∈ b.deliveries c ↔ c = .publish e ∧ s ∈ b.subscriptions ∧ s.covers e = true := by
  by_cases hpublish : ∃ e', c = .publish e'
  · obtain ⟨e', rfl⟩ := hpublish
    rw [deliveries_publish hb, Call.publish.injEq, List.mem_map]
    constructor
    · rintro ⟨u, hu, heq⟩
      obtain ⟨rfl, rfl⟩ := Delivery.mk.inj heq
      exact ⟨rfl, List.mem_filter.mp hu⟩
    · rintro ⟨rfl, hs⟩
      exact ⟨s, List.mem_filter.mpr hs, rfl⟩
  · rw [deliveries_other hb fun e' heq => hpublish ⟨e', heq⟩]
    constructor
    · intro h
      cases h
    · rintro ⟨heq, -⟩
      exact absurd ⟨e, heq⟩ hpublish

theorem deliveries_sorted (hb : b.IsSound) (c : Call) :
    (b.deliveries c).Pairwise fun d d' => d.subscription.number < d'.subscription.number := by
  by_cases hpublish : ∃ e, c = .publish e
  · obtain ⟨e, rfl⟩ := hpublish
    rw [deliveries_publish hb, List.pairwise_map]
    exact hb.sorted.filter _
  · rw [deliveries_other hb fun e heq => hpublish ⟨e, heq⟩]
    exact .nil

/-- An open bus refuses nothing but what names no handler, no job or no subscription. -/
theorem answer_of_open
    {c : Call} (hneeds : c.needsOpen = true) (hopen : b.isClosed = false) :
    b.answer c = .ok (b.after c) := by
  cases hanswer : b.answer c with
  | ok b' => rw [after_of_ok hanswer]
  | error err =>
      cases c with
      | subscribe id job handler =>
          cases handler with
          | none => cases hneeds
          | some r =>
              have hjob : job.isEmpty = false := by simpa [Call.needsOpen] using hneeds
              simp [answer, subscribe, hjob, hopen] at hanswer
      | unsubscribe id => cases hneeds
      | publish e => simp [answer, publish, hopen] at hanswer
      | close => simp [answer, close, hopen] at hanswer

theorem answer_of_closed
    {c : Call} (hneeds : c.needsOpen = true) (hclosed : b.isClosed = true) :
    b.answer c = .error .closed := by
  cases c with
  | subscribe id job handler =>
      cases handler with
      | none => cases hneeds
      | some r =>
          have hjob : job.isEmpty = false := by simpa [Call.needsOpen] using hneeds
          simp only [answer, subscribe, hjob, hclosed, Bool.false_eq_true, if_false, if_true]
  | unsubscribe id => cases hneeds
  | publish e => simp only [answer, publish, hclosed, if_true]
  | close => simp only [answer, close, hclosed, if_true]

theorem ends_other_iff
    (hb : b.IsSound) {c : Call} (hother : ∀ e, c ≠ .publish e) {id : Text} :
    b.Ends c id ↔ c = .unsubscribe id := by
  rw [Ends, deliveries_other hb hother]
  simp [endings]

/-- After a call those are registered who were before and whom it does not end, and whom
it makes. -/
theorem mem_after_iff (hb : b.IsSound) (c : Call) {s : Subscription} :
    s ∈ (b.after c).subscriptions ↔
      c ≠ .close ∧ (s ∈ b.subscriptions ∧ ¬b.Ends c s.id ∨ b.Makes c s) := by
  cases c with
  | subscribe id job handler =>
      rw [ends_other_iff hb (by simp)]
      rcases subscribe_cases b id job handler with ⟨s', hmakes, hafter⟩ | ⟨hnone, hafter⟩
      · have honly : ∀ u, b.Makes (.subscribe id job handler) u ↔ u = s' := by
          intro u
          constructor
          · intro hu
            obtain ⟨hid, hjob, hreaction⟩ := Call.subscribe.inj (hu.call.symm.trans hmakes.call)
            have hnumber := hu.number.trans hmakes.number.symm
            cases u
            cases s'
            simp_all
          · rintro rfl
            exact hmakes
        rw [hafter, honly]
        simp
      · rw [hafter]
        simp [hnone s]
  | unsubscribe id =>
      rw [ends_other_iff hb (by simp), after_unsubscribe, mem_eraseP_iff hb.distinct]
      have hnone : ¬b.Makes (.unsubscribe id) s := fun h => by cases h.call
      simp [hnone, eq_comm]
  | publish e =>
      have hnone : ¬b.Makes (.publish e) s := fun h => by cases h.call
      rw [(called_publish hb e).subscriptions, mem_withoutIds_iff hb.distinct, Ends,
        deliveries_publish hb]
      simp [hnone]
  | close =>
      rw [after_close hb]
      simp

theorem isClosed_after (hb : b.IsSound) (c : Call) :
    (b.after c).isClosed = false ↔ b.isClosed = false ∧ c ≠ .close := by
  cases c with
  | subscribe id job handler =>
      rcases subscribe_cases b id job handler with ⟨s, -, hafter⟩ | ⟨-, hafter⟩
      · simp [hafter]
      · simp [hafter]
  | unsubscribe id => simp [after_unsubscribe]
  | publish e => simp [(called_publish hb e).isClosed]
  | close => simp [after_close hb]

theorem IsSound.of_sublist
    {b' : Bus} (hb : b.IsSound) (hsub : b'.subscriptions.Sublist b.subscriptions)
    (hmade : b'.made = b.made) (hclosed : b'.isClosed = true → b'.subscriptions = []) :
    b'.IsSound where
  modest s hs := hb.modest s (hsub.subset hs)
  distinct := hb.distinct.sublist (hsub.map _)
  sorted := hb.sorted.sublist hsub
  numbered s hs := hmade ▸ hb.numbered s (hsub.subset hs)
  closed := hclosed

/-- A new subscription has the highest number. -/
theorem IsSound.made
    (hb : b.IsSound) {c : Call} {s : Subscription} (hmakes : b.Makes c s) (hmodest : c.IsModest)
    (hfresh : s.id ∉ b.subscriptions.map (·.id)) :
    IsSound { b with made := b.made + 1, subscriptions := b.subscriptions ++ [s] } where
  modest u hu := by
    rcases List.mem_append.mp hu with hu | hu
    · exact hb.modest u hu
    · obtain rfl := List.mem_singleton.mp hu
      rwa [hmakes.call] at hmodest
  distinct := by
    rw [List.map_append, List.nodup_append]
    refine ⟨hb.distinct, List.nodup_singleton _, fun id hid id' hid' heq => hfresh ?_⟩
    rw [List.map_singleton, List.mem_singleton] at hid'
    rwa [← hid', ← heq]
  sorted := by
    rw [List.pairwise_append]
    refine ⟨hb.sorted, List.pairwise_singleton _ _, fun u hu u' hu' => ?_⟩
    obtain rfl := List.mem_singleton.mp hu'
    rw [hmakes.number]
    exact Nat.lt_succ_of_le (hb.numbered u hu)
  numbered u hu := by
    rcases List.mem_append.mp hu with hu | hu
    · exact Nat.le_succ_of_le (hb.numbered u hu)
    · obtain rfl := List.mem_singleton.mp hu
      exact Nat.le_of_eq hmakes.number
  closed hclosed := absurd (hmakes.isOpen.symm.trans hclosed) Bool.false_ne_true

/-- Every call keeps the bus sound. -/
theorem IsSound.after
    (hb : b.IsSound) {c : Call} (hmodest : c.IsModest)
    (hfresh : ∀ s, b.Makes c s → s.id ∉ b.subscriptions.map (·.id)) : (b.after c).IsSound := by
  cases c with
  | subscribe id job handler =>
      rcases subscribe_cases b id job handler with ⟨s, hmakes, hafter⟩ | ⟨-, hafter⟩
      · rw [hafter]
        exact hb.made hmakes hmodest (hfresh s hmakes)
      · rwa [hafter]
  | unsubscribe id =>
      rw [after_unsubscribe]
      refine hb.of_sublist List.eraseP_sublist rfl fun hclosed => ?_
      rw [hb.closed hclosed]
      rfl
  | publish e =>
      have hcalled := called_publish hb e
      refine hb.of_sublist ?_ hcalled.made fun hclosed => ?_
      · rw [hcalled.subscriptions]
        exact withoutIds_sublist _ _
      · rw [hcalled.isClosed] at hclosed
        have hsub := withoutIds_sublist (endings b.delivered
          ((b.subscriptions.filter (·.covers e)).map (⟨·, e⟩))) b.subscriptions
        rw [← hcalled.subscriptions, hb.closed hclosed] at hsub
        exact List.eq_nil_of_sublist_nil hsub
  | close =>
      rw [after_close hb]
      exact hb.of_sublist (List.nil_sublist _) rfl fun _ => rfl

/-- A bus that stays open counts the subscriptions that are made. -/
theorem made_after
    (hb : b.IsSound) (hopen : b.isClosed = false) (c : Call) :
    (b.after c).made = b.made + c.drawn?.toList.length := by
  cases c with
  | subscribe id job handler =>
      rcases subscribe_cases b id job handler with ⟨s, hmakes, hafter⟩ | ⟨hnone, hafter⟩
      · rw [hafter, hmakes.call]
        simp [Call.drawn?, hmakes.job]
      · rw [hafter]
        cases handler with
        | none => rfl
        | some r =>
            have hjob : job.isEmpty = true := by
              rw [← Bool.not_eq_false]
              exact fun hjob => hnone ⟨id, b.made + 1, job, r⟩ ⟨rfl, hjob, hopen, rfl⟩
            simp [Call.drawn?, hjob]
  | unsubscribe id => rw [after_unsubscribe]; rfl
  | publish e => exact (called_publish hb e).made
  | close => rw [after_close hb]; rfl

end Step

end Population.Bus
