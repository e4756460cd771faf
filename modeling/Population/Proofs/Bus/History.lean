import Population.Proofs.Bus.Calls

/-!
# The history of a bus

Who is registered can be read off the calls made so far.  A subscription is registered
from the call that makes it until its identifier is given to an end of subscriptions, by
a call or by something that a handler does, or until the bus is closed.  The bus keeps
exactly the registered subscriptions, and every call keeps it that way.
-/

namespace Population.Bus

section History

variable (handlers : Handlers) (calls : List Call)

/-- A new bus after its first `i` calls. -/
def busAt (i : Nat) : Bus :=
  (calls.take i).foldl after { handlers }

/-- The handler calls that the call behind the first `i` leads to. -/
def deliveredAt (i : Nat) : List Delivery :=
  match calls[i]? with
  | some c => (busAt handlers calls i).deliveries c
  | none => []

/-- No call closes the bus before the one behind the first `i`. -/
def OpenAt (i : Nat) : Prop :=
  .close ∉ calls.take i

/-- The call behind the first `i` makes a subscription. -/
structure MadeAt (i : Nat) (s : Subscription) : Prop where
  call : calls[i]? = some (.subscribe s.id s.job (some s.reaction))
  job : s.job.isEmpty = false
  isOpen : OpenAt calls i
  number : s.number = ((calls.take i).filterMap Call.drawn?).length + 1

/-- During the call behind the first `i` a subscription with this identifier is ended, by
the call or by a handler that is called. -/
def EndedAt (i : Nat) (id : Text) : Prop :=
  calls[i]? = some (.unsubscribe id) ∨
    id ∈ endings (busAt handlers calls i).delivered (deliveredAt handlers calls i)

/-- The subscription was made by one of the first `i` calls and has not been ended since. -/
def Registered (i : Nat) (s : Subscription) : Prop :=
  OpenAt calls i ∧
    ∃ j < i, MadeAt calls j s ∧ ∀ k, j < k → k < i → ¬EndedAt handlers calls k s.id

end History

variable {handlers : Handlers} {calls : List Call}

theorem busAt_succ {i : Nat} {c : Call} (hcall : calls[i]? = some c) :
    busAt handlers calls (i + 1) = (busAt handlers calls i).after c := by
  rw [busAt, List.take_add_one, hcall, Option.toList_some, List.foldl_concat, busAt]

theorem deliveredAt_eq {i : Nat} {c : Call} (hcall : calls[i]? = some c) :
    deliveredAt handlers calls i = (busAt handlers calls i).deliveries c := by
  rw [deliveredAt, hcall]

theorem openAt_succ {i : Nat} {c : Call} (hcall : calls[i]? = some c) :
    OpenAt calls (i + 1) ↔ OpenAt calls i ∧ c ≠ .close := by
  rw [OpenAt, OpenAt, List.take_add_one, hcall, Option.toList_some, List.mem_append,
    List.mem_singleton, not_or, eq_comm]

theorem registered_succ {i : Nat} {s : Subscription} :
    Registered handlers calls (i + 1) s ↔ OpenAt calls (i + 1) ∧
      (Registered handlers calls i s ∧ ¬EndedAt handlers calls i s.id ∨ MadeAt calls i s) := by
  have hearlier : OpenAt calls (i + 1) → OpenAt calls i := fun hopen hmem =>
    hopen ((List.take_sublist_take_left (Nat.le_succ i)).subset hmem)
  constructor
  · rintro ⟨hopen, j, hj, hmade, hkept⟩
    refine ⟨hopen, ?_⟩
    rcases Nat.lt_succ_iff_lt_or_eq.mp hj with hlt | rfl
    · refine .inl ⟨⟨hearlier hopen, j, hlt, hmade, fun k hjk hk => hkept k hjk (by omega)⟩, ?_⟩
      exact hkept i hlt (Nat.lt_succ_self i)
    · exact .inr hmade
  · rintro ⟨hopen, ⟨⟨-, j, hj, hmade, hkept⟩, hlast⟩ | hmade⟩
    · refine ⟨hopen, j, by omega, hmade, fun k hjk hk => ?_⟩
      rcases Nat.lt_succ_iff_lt_or_eq.mp hk with hlt | rfl
      · exact hkept k hjk hlt
      · exact hlast
    · exact ⟨hopen, i, Nat.lt_succ_self i, hmade, fun k hik hk => by omega⟩

/-- The bus is in step with its history. -/
structure Tracks (handlers : Handlers) (calls : List Call) (i : Nat) : Prop where
  sound : (busAt handlers calls i).IsSound
  isOpen_iff : (busAt handlers calls i).isClosed = false ↔ OpenAt calls i
  made : OpenAt calls i →
    (busAt handlers calls i).made = ((calls.take i).filterMap Call.drawn?).length
  mem_iff : ∀ s, s ∈ (busAt handlers calls i).subscriptions ↔ Registered handlers calls i s

theorem Tracks.makes_iff
    {i : Nat} (h : Tracks handlers calls i) {c : Call} (hcall : calls[i]? = some c)
    {s : Subscription} :
    (busAt handlers calls i).Makes c s ↔ MadeAt calls i s := by
  constructor
  · intro hmakes
    have hopen := h.isOpen_iff.mp hmakes.isOpen
    exact ⟨by rw [hcall, hmakes.call], hmakes.job, hopen, by rw [hmakes.number, h.made hopen]⟩
  · intro hmade
    refine ⟨Option.some.inj (hcall.symm.trans hmade.call), hmade.job,
      h.isOpen_iff.mpr hmade.isOpen, ?_⟩
    rw [hmade.number, h.made hmade.isOpen]

theorem MadeAt.drawn? {i : Nat} {c : Call} {s : Subscription} (h : MadeAt calls i s)
    (hcall : calls[i]? = some c) : c.drawn? = some s.id := by
  obtain rfl := Option.some.inj (hcall.symm.trans h.call)
  simp [Call.drawn?, h.job]

/-- What was drawn before a call is in the history up to that call. -/
theorem drawn_take_succ {i : Nat} {c : Call} (hcall : calls[i]? = some c) :
    (calls.take (i + 1)).filterMap Call.drawn? =
      (calls.take i).filterMap Call.drawn? ++ c.drawn?.toList := by
  rw [List.take_add_one, hcall, Option.toList_some, List.filterMap_append]
  cases hdrawn : c.drawn? <;> simp [hdrawn]

theorem MadeAt.mem_drawn {i j : Nat} {s : Subscription} (h : MadeAt calls j s) (hj : j < i) :
    s.id ∈ (calls.take i).filterMap Call.drawn? := by
  have hmem : s.id ∈ (calls.take (j + 1)).filterMap Call.drawn? := by
    rw [drawn_take_succ h.call, h.drawn? h.call]
    simp
  exact ((List.take_sublist_take_left hj).filterMap _).subset hmem

theorem Tracks.fresh
    {i : Nat} (h : Tracks handlers calls i) {c : Call} (hcall : calls[i]? = some c)
    (hids : (calls.filterMap Call.drawn?).Nodup) {s : Subscription}
    (hmakes : (busAt handlers calls i).Makes c s) :
    s.id ∉ (busAt handlers calls i).subscriptions.map (·.id) := by
  intro hmem
  obtain ⟨u, hu, hsame⟩ := List.mem_map.mp hmem
  obtain ⟨-, j, hj, hmade, -⟩ := (h.mem_iff u).mp hu
  have hprefix : ((calls.take (i + 1)).filterMap Call.drawn?).Nodup :=
    hids.sublist ((List.take_sublist _ _).filterMap _)
  rw [drawn_take_succ hcall, ((h.makes_iff hcall).mp hmakes).drawn? hcall, List.nodup_append]
    at hprefix
  exact hprefix.2.2 u.id (hmade.mem_drawn hj) s.id (by simp) hsame

theorem tracks
    (handlers : Handlers) (hmodest : ∀ c ∈ calls, c.IsModest)
    (hids : (calls.filterMap Call.drawn?).Nodup) {i : Nat} (hi : i ≤ calls.length) :
    Tracks handlers calls i := by
  induction i with
  | zero =>
      refine ⟨⟨?_, .nil, .nil, ?_, fun _ => rfl⟩, ?_, fun _ => rfl, fun s => ?_⟩
      · intro s hs
        cases hs
      · intro s hs
        cases hs
      · exact ⟨fun _ => List.not_mem_nil, fun _ => rfl⟩
      · constructor
        · intro hs
          cases hs
        · rintro ⟨-, j, hj, -⟩
          cases hj
  | succ i ih =>
      have h := ih (by omega)
      have hcall : calls[i]? = some calls[i] := List.getElem?_eq_getElem hi
      have hbus : busAt handlers calls (i + 1) = (busAt handlers calls i).after calls[i] :=
        busAt_succ hcall
      have hsound : (busAt handlers calls (i + 1)).IsSound := by
        rw [hbus]
        exact h.sound.after (hmodest _ (List.getElem_mem hi)) fun s => h.fresh hcall hids
      refine ⟨hsound, ?_, fun hopen => ?_, fun s => ?_⟩
      · rw [hbus, isClosed_after h.sound, openAt_succ hcall, h.isOpen_iff]
      · have hbefore := ((openAt_succ hcall).mp hopen).1
        rw [hbus, made_after h.sound (h.isOpen_iff.mpr hbefore), h.made hbefore,
          drawn_take_succ hcall, List.length_append]
      · rw [hbus, mem_after_iff h.sound, registered_succ, openAt_succ hcall, h.mem_iff,
          h.makes_iff hcall, EndedAt, deliveredAt_eq hcall, hcall, Option.some.injEq, Ends]
        constructor
        · rintro ⟨hclose, hregistered | hmade⟩
          · exact ⟨⟨hregistered.1.1, hclose⟩, .inl hregistered⟩
          · exact ⟨⟨hmade.isOpen, hclose⟩, .inr hmade⟩
        · rintro ⟨⟨-, hclose⟩, hcases⟩
          exact ⟨hclose, hcases⟩

theorem tracks_of_getElem?
    (handlers : Handlers) (hmodest : ∀ c ∈ calls, c.IsModest)
    (hids : (calls.filterMap Call.drawn?).Nodup) {i : Nat} {c : Call}
    (hcall : calls[i]? = some c) : Tracks handlers calls i :=
  tracks handlers hmodest hids (Nat.le_of_lt (List.getElem?_eq_some_iff.mp hcall).1)

theorem MadeAt.number_lt
    {i j : Nat} {s s' : Subscription} (h : MadeAt calls i s) (h' : MadeAt calls j s')
    (hij : i < j) : s.number < s'.number := by
  have hle : ((calls.take (i + 1)).filterMap Call.drawn?).length ≤
      ((calls.take j).filterMap Call.drawn?).length :=
    ((List.take_sublist_take_left hij).filterMap _).length_le
  rw [drawn_take_succ h.call, h.drawn? h.call, List.length_append] at hle
  rw [h.number, h'.number]
  exact Nat.succ_le_succ hle

theorem delivered_busAt
    (hmodest : ∀ c ∈ calls, c.IsModest) (hids : (calls.filterMap Call.drawn?).Nodup) {i : Nat}
    (hi : i ≤ calls.length) :
    (busAt handlers calls i).delivered = (List.range i).flatMap (deliveredAt handlers calls) := by
  induction i with
  | zero => rfl
  | succ i ih =>
      have hcall : calls[i]? = some calls[i] := List.getElem?_eq_getElem hi
      have hsound := (tracks handlers hmodest hids (Nat.le_of_succ_le hi)).sound
      rw [busAt_succ hcall, delivered_after hsound, ih (by omega), List.range_succ,
        List.flatMap_append, List.flatMap_singleton, deliveredAt_eq hcall]

end Population.Bus
