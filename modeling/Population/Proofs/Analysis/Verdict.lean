import Population.Proofs.Analysis.Frame
import Mathlib.Data.List.Forall2
import Mathlib.Tactic.ByContra

/-!
# Verdicts and the questions behind them

Each hazard has a slot for the answer to its question.  A slot is written when
the oracle replies, and stays as it was when the question is never asked or never
comes back.  The verdict is folded from the slots: it tells a reachable hazard
and a failed question, but a slot that was never written counts for nothing.  So
the verdict is the one that the replies call for, except that it is `safe` where
some questions were never answered and all others had the answer "unreachable".
-/

namespace Population

open Refusal (exists_of_bind_eq_ok)

namespace Verdict

/-! ## Folding -/

theorem foldFrom_eq (v : Verdict) (statuses : List Finding.Status) :
    foldFrom v statuses =
      if .reachable ∈ statuses then violated
      else if .unavailable ∈ statuses then inconclusive
      else v := by
  induction statuses generalizing v with
  | nil => simp [foldFrom]
  | cons s rest ih =>
      cases s with
      | reachable => simp [foldFrom]
      | unavailable =>
          simp only [foldFrom, ih, List.mem_cons, reduceCtorEq, false_or, true_or, if_true]
          split
          · rfl
          · split <;> rfl
      | unreachable => simp [foldFrom, ih]
      | other w => simp [foldFrom, ih]

/-- The verdict that the statuses call for: safe only if every question was
decided. -/
def due (statuses : List Finding.Status) : Verdict :=
  if .reachable ∈ statuses then violated
  else if ∀ s ∈ statuses, s = .unreachable then safe
  else inconclusive

theorem fold_eq_violated_iff {statuses : List Finding.Status} :
    fold statuses = violated ↔ .reachable ∈ statuses := by
  rw [fold, foldFrom_eq]
  split_ifs <;> simp_all

theorem fold_eq_inconclusive_iff {statuses : List Finding.Status} :
    fold statuses = inconclusive ↔ .reachable ∉ statuses ∧ .unavailable ∈ statuses := by
  rw [fold, foldFrom_eq]
  split_ifs <;> simp_all

/-- Nothing was found and nothing failed, although not everything was decided. -/
def Overlooks (statuses : List Finding.Status) : Prop :=
  .reachable ∉ statuses ∧ .unavailable ∉ statuses ∧ ∃ s ∈ statuses, s ≠ .unreachable

theorem fold_ne_due_iff {statuses : List Finding.Status} :
    fold statuses ≠ due statuses ↔ Overlooks statuses := by
  rw [fold, foldFrom_eq, due, Overlooks]
  split_ifs with h h' h'' h''
  · simp [h]
  · exact absurd (h'' _ h') (by simp)
  · simp [h']
  · simpa [h, h'] using h''
  · simpa [h, h'] using h''

end Verdict

/-! ## Replies -/

/-- What a reply says about a hazard. -/
inductive Reply.Says (r : Reply) : Finding.Status → Prop
  | reachable {a : Answer} (herror : r.error = none) (hanswer : r.answer = some a)
      (h : a.reachable = true) : Says r .reachable
  | unreachable {a : Answer} (herror : r.error = none) (hanswer : r.answer = some a)
      (h : a.reachable = false) : Says r .unreachable
  | unavailable {e : OracleError} (herror : r.error = some e) : Says r .unavailable

theorem Reply.says_of_ofReply
    {h : Hazard} {r : Reply} {i : Inquiry} (hi : Inquiry.ofReply h r = some i) :
    r.Says i.finding.status := by
  unfold Inquiry.ofReply at hi
  split at hi
  next e _ herror =>
    cases hi
    exact .unavailable herror
  next a herror hanswer =>
    split at hi
    next hreachable =>
      cases hi
      exact .reachable herror hanswer hreachable
    next hreachable =>
      cases hi
      exact .unreachable herror hanswer (by simpa using hreachable)
  next => simp at hi

/-- Only a reply without answer and error says nothing. -/
theorem Reply.eq_of_ofReply_eq_none
    {h : Hazard} {r : Reply} (hi : Inquiry.ofReply h r = none) : r = ⟨none, none⟩ := by
  unfold Inquiry.ofReply at hi
  split at hi
  next => simp at hi
  next => split at hi <;> simp at hi
  next herror hanswer =>
    cases r
    rw [← herror, ← hanswer]

theorem Reply.Says.ne_other {r : Reply} {s : Finding.Status} (h : r.Says s) (w : Text) :
    s ≠ .other w := by
  cases h <;> simp

/-- The question about a hazard was never answered, or the oracle replied. -/
def Finding.Reflects (f : Finding) (o : Oracle) (q : Query) : Prop :=
  f.status = .other [] ∨ ∃ allowance, (o.consult q allowance).reply.Says f.status

namespace Act

open Session (frame)

/-! ## Asking -/

section Asking

variable {q : Query} {h : Hazard} {s s' : Session}

theorem keeps_inquire (q : Query) (h : Hazard) : Keeps frame (inquire q h) := by
  refine (keeps_look _).bind fun o => keeps_get.bind fun t => ?_
  refine Keeps.bind (keeps_modify ?_) fun _ => Keeps.bind (keeps_change ?_) fun _ =>
    (keeps_measure _).bind fun _ => ?_
  · exact fun _ => rfl
  · exact fun _ => ⟨rfl, rfl, rfl⟩
  · split
    · exact keeps_pure _
    · exact (keeps_measure _).bind fun _ => keeps_pure _

/-- What is asked is answered by the oracle. -/
theorem exists_consult_of_inquire
    {answer : Option Inquiry} (hrun : inquire q h s = (.ok answer, s')) :
    ∃ allowance, Inquiry.ofReply h (s.service.oracle.consult q allowance).reply = answer := by
  refine ⟨s.context, ?_⟩
  obtain ⟨o, s₁, hlook, hrun⟩ := exists_of_bind_eq_ok hrun
  cases hlook
  obtain ⟨t, s₂, hget, hrun⟩ := exists_of_bind_eq_ok hrun
  cases hget
  obtain ⟨-, s₃, -, hrun⟩ := exists_of_bind_eq_ok hrun
  obtain ⟨-, s₄, -, hrun⟩ := exists_of_bind_eq_ok hrun
  obtain ⟨-, s₅, -, hrun⟩ := exists_of_bind_eq_ok hrun
  cases hreply : Inquiry.ofReply h (s.service.oracle.consult q s.context).reply with
  | none =>
      rw [hreply] at hrun
      cases hrun
      rfl
  | some i =>
      rw [hreply] at hrun
      obtain ⟨-, s₆, -, hrun⟩ := exists_of_bind_eq_ok hrun
      cases hrun
      rfl

end Asking

/-! ## Slots -/

section Slots

variable {ask : Hazard → Act AnalysisError (Option Inquiry)} {hazards : List Hazard}

theorem keeps_inquireBy
    {γ : Type} {view : Session → γ} (hask : ∀ h, Keeps view (ask h))
    (outlives : Nat → Nat → Bool) (tasks failed : List Nat) (slots : List Inquiry) :
    Keeps view (inquireBy outlives ask hazards tasks failed slots) := by
  induction tasks generalizing failed slots with
  | nil => exact keeps_pure _
  | cons i rest ih =>
      rw [inquireBy]
      split
      · exact ih failed slots
      · split
        · exact ih failed slots
        · refine (hask _).bind fun answer => ?_
          split
          · exact ih _ slots
          · exact ih failed _

variable {outlives : Nat → Nat → Bool}

/-- One task: it is dropped, no hazard has its number, the question does not come back,
or its answer is written; the other tasks follow. -/
theorem inquireBy_cons_cases
    {i : Nat} {rest failed : List Nat} {slots slots' : List Inquiry} {s s' : Session}
    (hrun : inquireBy outlives ask hazards (i :: rest) failed slots s = (.ok slots', s')) :
    ((failed ≠ [] ∨ hazards[i]? = none) ∧
        inquireBy outlives ask hazards rest failed slots s = (.ok slots', s')) ∨
      ∃ h, hazards[i]? = some h ∧
        ((∃ s₁, ask h s = (.ok none, s₁) ∧
            inquireBy outlives ask hazards rest (i :: failed) slots s₁ = (.ok slots', s')) ∨
          ∃ a s₁, ask h s = (.ok (some a), s₁) ∧
            inquireBy outlives ask hazards rest failed (slots.set i a) s₁ =
              (.ok slots', s')) := by
  rw [inquireBy] at hrun
  split at hrun
  next hdropped =>
    refine .inl ⟨.inl ?_, hrun⟩
    rintro rfl
    simp at hdropped
  next =>
    cases hi : hazards[i]? with
    | none =>
        rw [hi] at hrun
        exact .inl ⟨.inr rfl, hrun⟩
    | some h =>
        rw [hi] at hrun
        obtain ⟨answer, s₁, hask, hrun⟩ := exists_of_bind_eq_ok hrun
        refine .inr ⟨h, rfl, ?_⟩
        cases answer with
        | none => exact .inl ⟨s₁, hask, hrun⟩
        | some a => exact .inr ⟨a, s₁, hask, hrun⟩

theorem forall₂_set
    {α β : Type} {R : α → β → Prop} {xs : List α} {ys : List β} (h : List.Forall₂ R xs ys)
    {i : Nat} {x : α} (hx : xs[i]? = some x) {y : β} (hy : R x y) :
    List.Forall₂ R xs (ys.set i y) := by
  induction h generalizing i with
  | nil => simp at hx
  | cons hfirst hrest ih =>
      cases i with
      | zero =>
          cases hx
          exact .cons hy hrest
      | succ i => exact .cons hfirst (ih hx)

variable {Q : Session → Prop} (hkeeps : ∀ h s x s', Q s → ask h s = (x, s') → Q s')
  {tasks : List Nat} {slots slots' : List Inquiry} {s s' : Session}
include hkeeps

/-- Whatever is written to the slot of a hazard answers the question about it. -/
theorem inquireBy_forall₂
    {R : Hazard → Inquiry → Prop}
    (hanswer : ∀ h s a s', Q s → ask h s = (.ok (some a), s') → R h a)
    (hs : Q s) (hslots : List.Forall₂ R hazards slots) {failed : List Nat}
    (hrun : inquireBy outlives ask hazards tasks failed slots s = (.ok slots', s')) :
    List.Forall₂ R hazards slots' := by
  induction tasks generalizing failed slots s with
  | nil =>
      cases hrun
      exact hslots
  | cons i rest ih =>
      rcases inquireBy_cons_cases hrun with
        ⟨-, hrun⟩ | ⟨h, hi, ⟨s₁, hask, hrun⟩ | ⟨a, s₁, hask, hrun⟩⟩
      · exact ih hs hslots hrun
      · exact ih (hkeeps h s _ s₁ hs hask) hslots hrun
      · exact ih (hkeeps h s _ s₁ hs hask) (forall₂_set hslots hi (hanswer h s a s₁ hs hask)) hrun

/-- Where every question comes back, all slots are written that belong to a task. -/
theorem inquireBy_written
    {W : Inquiry → Prop}
    (hanswer : ∀ h s r s', Q s → ask h s = (.ok r, s') → ∃ a, r = some a ∧ W a) (hs : Q s)
    (hlength : slots.length = hazards.length)
    (hslots : ∀ i slot, slots[i]? = some slot → i ∈ tasks ∨ W slot)
    (hrun : inquireBy outlives ask hazards tasks [] slots s = (.ok slots', s')) :
    ∀ slot ∈ slots', W slot := by
  induction tasks generalizing slots s with
  | nil =>
      cases hrun
      intro slot hslot
      obtain ⟨i, hi⟩ := List.mem_iff_getElem?.mp hslot
      exact (hslots i slot hi).resolve_left List.not_mem_nil
  | cons i rest ih =>
      rcases inquireBy_cons_cases hrun with
        ⟨hi, hrun⟩ | ⟨h, hi, ⟨s₁, hask, -⟩ | ⟨a, s₁, hask, hrun⟩⟩
      -- A number beyond the hazards belongs to no slot.
      · replace hi := hi.resolve_left fun hne => hne rfl
        refine ih hs hlength ?_ hrun
        intro j slot hj
        refine (hslots j slot hj).imp_left fun hmem => (List.mem_cons.mp hmem).resolve_left ?_
        rintro rfl
        have hnone : slots[j]? = none := by
          rw [List.getElem?_eq_none_iff] at hi ⊢
          omega
        rw [hnone] at hj
        cases hj
      · obtain ⟨a, hsome, -⟩ := hanswer h s none s₁ hs hask
        cases hsome
      · obtain ⟨a', hsome, ha⟩ := hanswer h s (some a) s₁ hs hask
        cases hsome
        -- The task's own slot is written now, the others still are as they were.
        refine ih (hkeeps h s _ s₁ hs hask) (by simpa using hlength) ?_ hrun
        intro j slot hj
        by_cases hne : i = j
        · subst hne
          have hlt : i < slots.length := hlength ▸ (List.getElem?_eq_some_iff.mp hi).1
          rw [List.getElem?_set_self hlt] at hj
          cases hj
          exact .inr ha
        · rw [List.getElem?_set_ne hne] at hj
          exact (hslots j slot hj).imp_left fun hmem =>
            (List.mem_cons.mp hmem).resolve_left (Ne.symm hne)

end Slots

section Answers

variable {enc : Encoding} {path : Text} {slots : List Inquiry} {s s' : Session}

theorem keeps_inquireAll (enc : Encoding) (path : Text) : Keeps frame (inquireAll enc path) :=
  (keeps_look _).bind fun _ => (keeps_look _).bind fun _ =>
    keeps_inquireBy (fun _ => keeps_inquire _ _) _ _ _ _

theorem setting_of_inquire
    {o : Oracle × AnalysisOptions × Bool} (q : Query) (h : Hazard) (s : Session)
    (x : Except AnalysisError (Option Inquiry)) (s' : Session) (hs : s.setting = o)
    (hrun : inquire q h s = (x, s')) : s'.setting = o :=
  (Session.setting_eq ((keeps_inquire q h).eq hrun)).trans hs

/-- What holds of an empty slot and of every reply holds of the slots of an analysis. -/
theorem inquireAll_forall₂
    {R : Hazard → Inquiry → Prop} (hempty : ∀ h, R h {})
    (hreply : ∀ h allowance i,
      Inquiry.ofReply h
        (s.service.oracle.consult ⟨some enc.system, path, h.marking⟩ allowance).reply = some i →
      R h i)
    (hrun : inquireAll enc path s = (.ok slots, s')) : List.Forall₂ R enc.hazards slots := by
  obtain ⟨tasks, s₁, hlook, hrun⟩ := exists_of_bind_eq_ok hrun
  cases hlook
  obtain ⟨outlives, s₁, hlook, hrun⟩ := exists_of_bind_eq_ok hrun
  cases hlook
  refine inquireBy_forall₂ (Q := fun t => t.setting = s.setting)
    (fun h => setting_of_inquire _ h) ?_ rfl ?_ hrun
  · intro h t a t' ht hask
    obtain ⟨allowance, hasked⟩ := exists_consult_of_inquire hask
    have horacle : t.service.oracle = s.service.oracle := congrArg Prod.fst ht
    rw [horacle] at hasked
    exact hreply h allowance a hasked
  · rw [List.forall₂_map_right_iff, List.forall₂_same]
    exact fun h _ => hempty h

/-- The slots of an analysis show what the oracle replied, as far as it did. -/
theorem inquireAll_reflects (hrun : inquireAll enc path s = (.ok slots, s')) :
    List.Forall₂
      (fun h i => i.finding.Reflects s.service.oracle ⟨some enc.system, path, h.marking⟩)
      enc.hazards slots :=
  inquireAll_forall₂ (fun _ => .inl rfl)
    (fun _ allowance _ hreply => .inr ⟨allowance, Reply.says_of_ofReply hreply⟩) hrun

/-- An open service with an oracle that always replies leaves no slot empty. -/
theorem inquireAll_answered
    (hopen : s.service.isOpen = true)
    (hreplies : ∀ q allowance, (s.service.oracle.consult q allowance).reply ≠ ⟨none, none⟩)
    (hrun : inquireAll enc path s = (.ok slots, s')) :
    ∀ i ∈ slots, i.finding.status ≠ .other [] := by
  obtain ⟨tasks, s₁, hlook, hrun⟩ := exists_of_bind_eq_ok hrun
  cases hlook
  obtain ⟨outlives, s₁, hlook, hrun⟩ := exists_of_bind_eq_ok hrun
  cases hlook
  have htasks : s.service.tasks enc.hazards.length =
      s.service.schedule.order enc.hazards.length := if_pos hopen
  simp only [htasks] at hrun
  refine inquireBy_written (Q := fun t => t.setting = s.setting)
    (W := fun i => i.finding.status ≠ .other [])
    (fun h => setting_of_inquire _ h) ?_ rfl (by simp) ?_ hrun
  · intro h t answer t' ht hask
    obtain ⟨allowance, hreply⟩ := exists_consult_of_inquire hask
    have horacle : t.service.oracle = s.service.oracle := congrArg Prod.fst ht
    rw [horacle] at hreply
    cases answer with
    | none => exact absurd (Reply.eq_of_ofReply_eq_none hreply) (hreplies _ _)
    | some a => exact ⟨a, rfl, (Reply.says_of_ofReply hreply).ne_other []⟩
  · intro i slot hi
    left
    rw [List.getElem?_map] at hi
    obtain ⟨h, hh, -⟩ := Option.map_eq_some_iff.mp hi
    rw [(s.service.schedule.perm _).mem_iff]
    exact List.mem_range.mpr (List.getElem?_eq_some_iff.mp hh).1

end Answers

/-! ## Results -/

section Results

variable {id path : Text} {enc : Encoding} {s s' : Session}

theorem conclude_result
    {v : Verdict} {message : Text} (hrun : conclude id v message s = (.ok (), s')) :
    ∃ result, s'.draft = some result ∧ result.findings = s.findings ∧
      result.verdict = v.text := by
  obtain ⟨_, s₁, hrevise, htell⟩ := exists_of_bind_eq_ok hrun
  cases hrevise
  exact ⟨_, congrArg Prod.fst ((keeps_tell id v.kind message).eq htell), rfl, rfl⟩

theorem revise_findings
    {f : JobResult → JobResult} {u : Unit} (hrun : revise f s = (.ok u, s')) :
    s'.findings = (f (s.draft.getD {})).findings := by
  cases hrun
  rfl

theorem reportInquiries_findings
    {answers : List (Hazard × Inquiry)} (hrun : reportInquiries id answers s = (.ok (), s')) :
    s'.findings = s.findings ++ answers.map (·.2.finding) := by
  induction answers generalizing s with
  | nil =>
      cases hrun
      simp
  | cons answer rest ih =>
      obtain ⟨_, s₁, houtput, hrun⟩ := exists_of_bind_eq_ok hrun
      obtain ⟨_, s₂, htell, hrun⟩ := exists_of_bind_eq_ok hrun
      obtain ⟨_, s₃, hrevise, hrun⟩ := exists_of_bind_eq_ok hrun
      calc
        s'.findings = s₃.findings ++ rest.map (·.2.finding) := ih hrun
        _ = (s₂.findings ++ [answer.2.finding]) ++ rest.map (·.2.finding) := by
          rw [revise_findings hrevise]
          rfl
        _ = (s.findings ++ [answer.2.finding]) ++ rest.map (·.2.finding) := by
          rw [Session.findings_eq ((keeps_tell _ _ _).eq htell),
            Session.findings_eq ((keeps_tellAll _ _ _).eq houtput)]
        _ = s.findings ++ (answer :: rest).map (·.2.finding) := by simp

/-- The query phase that comes to a verdict: there is no hazard, or all questions are asked, the
run goes on, the answers are reported, and the verdict is folded from them. -/
theorem judge_cases (hrun : judge id enc path s = (.ok (), s')) :
    (enc.hazards = [] ∧
      conclude id .safe "no transition populates an unsafe state: protocol is safe" s =
        (.ok (), s')) ∨
      enc.hazards ≠ [] ∧ ∃ slots s₁ s₂ s₃, inquireAll enc path s = (.ok slots, s₁) ∧
        (permitted : Act AnalysisError Bool) s₁ = (.ok true, s₂) ∧
        reportInquiries id (enc.hazards.zip slots) s₂ = (.ok (), s₃) ∧
        conclude id (Verdict.fold (slots.map fun i => i.finding.status))
          ("verdict: protocol is " ++ (Verdict.fold (slots.map fun i => i.finding.status)).text)
          s₃ = (.ok (), s') := by
  unfold judge at hrun
  split at hrun
  next hnone => exact .inl ⟨List.isEmpty_iff.mp hnone, hrun⟩
  next hsome =>
    obtain ⟨slots, s₁, hslots, hrun⟩ := exists_of_bind_eq_ok hrun
    obtain ⟨allowed, s₂, hpermitted, hrun⟩ := exists_of_bind_eq_ok hrun
    cases allowed with
    | false => cases hrun
    | true =>
        obtain ⟨_, s₃, hreport, hconclude⟩ := exists_of_bind_eq_ok hrun
        exact .inr ⟨fun hnone => hsome (List.isEmpty_iff.mpr hnone), slots, s₁, s₂, s₃, hslots,
          hpermitted, hreport, hconclude⟩

/-- The findings of the query phase are those of the slots, one for each hazard. -/
theorem judge_findings (hfresh : s.findings = []) (hrun : judge id enc path s = (.ok (), s')) :
    ∃ result slots, s'.draft = some result ∧ result.findings = slots.map (·.finding) ∧
      result.verdict = (Verdict.fold (result.findings.map (·.status))).text ∧
      (enc.hazards = [] ∧ slots = [] ∨ ∃ s₁, inquireAll enc path s = (.ok slots, s₁)) := by
  rcases judge_cases hrun with
    ⟨hnone, hconclude⟩ | ⟨-, slots, s₁, s₂, s₃, hslots, hpermitted, hreport, hconclude⟩
  · obtain ⟨result, hdraft, hfindings, hverdict⟩ := conclude_result hconclude
    refine ⟨result, [], hdraft, hfindings.trans hfresh, ?_, .inl ⟨hnone, rfl⟩⟩
    rw [hverdict, hfindings, hfresh]
    rfl
  · obtain ⟨result, hdraft, hfindings, hverdict⟩ := conclude_result hconclude
    have hzip : (enc.hazards.zip slots).map Prod.snd = slots :=
      List.map_snd_zip (Nat.le_of_eq (inquireAll_reflects hslots).length_eq.symm)
    have hresult : result.findings = slots.map (·.finding) := by
      rw [hfindings, reportInquiries_findings hreport,
        Session.findings_eq (keeps_permitted.eq hpermitted),
        Session.findings_eq ((keeps_inquireAll enc path).eq hslots), hfresh, List.nil_append]
      conv_rhs => rw [← hzip, List.map_map]
      rfl
    refine ⟨result, slots, hdraft, hresult, ?_, .inr ⟨s₁, hslots⟩⟩
    rw [hverdict, hresult, List.map_map]
    rfl

/-- The result of the query phase: one finding per hazard, and the verdict that
is folded from their statuses. -/
theorem judge_result (hfresh : s.findings = []) (hrun : judge id enc path s = (.ok (), s')) :
    ∃ result, s'.draft = some result ∧
      List.Forall₂
        (fun h f => f.Reflects s.service.oracle ⟨some enc.system, path, h.marking⟩)
        enc.hazards result.findings ∧
      (s.service.isOpen = true →
        (∀ q allowance, (s.service.oracle.consult q allowance).reply ≠ ⟨none, none⟩) →
        ∀ f ∈ result.findings, f.status ≠ .other []) ∧
      result.verdict = (Verdict.fold (result.findings.map (·.status))).text := by
  obtain ⟨result, slots, hdraft, hresult, hverdict, hslots⟩ := judge_findings hfresh hrun
  refine ⟨result, hdraft, ?_, ?_, hverdict⟩
  · rw [hresult, List.forall₂_map_right_iff]
    rcases hslots with ⟨hnone, rfl⟩ | ⟨s₁, hslots⟩
    · rw [hnone]
      exact .nil
    · exact inquireAll_reflects hslots
  · intro hopen hreplies f hf
    rw [hresult] at hf
    obtain ⟨i, hi, rfl⟩ := List.mem_map.mp hf
    rcases hslots with ⟨-, rfl⟩ | ⟨s₁, hslots⟩
    · cases hi
    · exact inquireAll_answered hopen hreplies hslots i hi

end Results

/-- An analysis that comes to a verdict gets its encoding judged. -/
theorem pipeline_judges
    {id text : Text} {s s' : Session} (hrun : pipeline id text s = (.ok (), s')) :
    ∃ d enc s₁, Description.read text = .ok d ∧
      encode d
        (compose d ⟨s.service.options.maxConcurrency, s.service.options.deduplicate⟩).transitions
        ⟨s.service.options.bound, "job_" ++ plain id⟩ = .ok enc ∧
      s₁.ledger = s.ledger ∧
      judge id enc (artifactPath s.service.options.workDir id) s₁ = (.ok (), s') := by
  obtain ⟨_, s₁, hstart, hrun⟩ := exists_of_bind_eq_ok hrun
  obtain ⟨d, s₂, hread, hrun⟩ := exists_of_bind_eq_ok hrun
  obtain ⟨c, s₃, hcompose, hrun⟩ := exists_of_bind_eq_ok hrun
  obtain ⟨enc, s₄, hencode, hrun⟩ := exists_of_bind_eq_ok hrun
  obtain ⟨path, s₅, hwrite, hjudge⟩ := exists_of_bind_eq_ok hrun
  have h₁ : s₁.ledger = s.ledger := (keeps_call _ _).refusing.ledger.eq hstart
  have h₂ : s₂.ledger = s.ledger := ((keeps_readDescription id text).eq hread).trans h₁
  have h₃ : s₃.ledger = s.ledger := ((keeps_composeAll id d).eq hcompose).trans h₂
  have h₄ : s₄.ledger = s.ledger := ((keeps_encodeAll id d c).eq hencode).trans h₃
  have h₅ : s₅.ledger = s.ledger := ((keeps_writeArtifact id enc).eq hwrite).trans h₄
  have hoptions : ∀ {t : Session}, t.ledger = s.ledger → t.service.options = s.service.options :=
    fun h => congrArg (fun ledger => ledger.2.2.1) h
  rw [path_of_writeArtifact hwrite, hoptions h₄] at hjudge
  have hencoded := encode_of_encodeAll hencode
  rw [eq_of_composeAll hcompose, hoptions h₂, hoptions h₃] at hencoded
  exact ⟨d, enc, s₅, read_of_readDescription hread, hencoded, h₅, hjudge⟩

theorem pipeline_result
    {id text : Text} {s s' : Session} (hfresh : s.draft = none)
    (hrun : pipeline id text s = (.ok (), s')) :
    ∃ d enc result, Description.read text = .ok d ∧
      encode d
        (compose d ⟨s.service.options.maxConcurrency, s.service.options.deduplicate⟩).transitions
        ⟨s.service.options.bound, "job_" ++ plain id⟩ = .ok enc ∧
      s'.draft = some result ∧
      List.Forall₂
        (fun h f => f.Reflects s.service.oracle
          ⟨some enc.system, artifactPath s.service.options.workDir id, h.marking⟩)
        enc.hazards result.findings ∧
      (s.service.isOpen = true →
        (∀ q allowance, (s.service.oracle.consult q allowance).reply ≠ ⟨none, none⟩) →
        ∀ f ∈ result.findings, f.status ≠ .other []) ∧
      result.verdict = (Verdict.fold (result.findings.map (·.status))).text := by
  obtain ⟨d, enc, s₁, hread, hencode, hledger, hjudge⟩ := pipeline_judges hrun
  obtain ⟨result, hdraft, hjudged⟩ :=
    judge_result (Session.findings_of_ledger hfresh hledger) hjudge
  have horacle : s₁.service.oracle = s.service.oracle :=
    congrArg (fun ledger => ledger.2.1) hledger
  have hopen : s₁.service.isOpen = s.service.isOpen :=
    congrArg (fun ledger => ledger.2.2.2) hledger
  rw [horacle, hopen] at hjudged
  exact ⟨d, enc, result, hread, hencode, hdraft, hjudged⟩

end Act

theorem Finding.exists_reflects_of_mem
    {o : Oracle} {question : Hazard → Query} {hazards : List Hazard} {findings : List Finding}
    (h : List.Forall₂ (fun h f => f.Reflects o (question h)) hazards findings)
    {f : Finding} (hf : f ∈ findings) : ∃ q, f.Reflects o q := by
  induction h with
  | nil => simp at hf
  | cons hfirst _ ih =>
      rcases List.mem_cons.mp hf with rfl | hf
      · exact ⟨_, hfirst⟩
      · exact ih hf

/-- Where every question was answered the verdict is the due one. -/
theorem Verdict.fold_eq_due_of_answered
    {findings : List Finding} {o : Oracle}
    (hreflects : ∀ f ∈ findings, ∃ q, f.Reflects o q)
    (hanswered : ∀ f ∈ findings, f.status ≠ .other []) :
    fold (findings.map (·.status)) = due (findings.map (·.status)) := by
  by_contra hne
  obtain ⟨hreachable, hunavailable, status, hstatus, hundecided⟩ := fold_ne_due_iff.mp hne
  obtain ⟨f, hf, rfl⟩ := List.mem_map.mp hstatus
  obtain ⟨q, hunanswered | ⟨allowance, hsays⟩⟩ := hreflects f hf
  · exact hanswered f hf hunanswered
  · rw [List.mem_map] at hreachable hunavailable
    generalize hs : f.status = status at hsays hundecided
    cases hsays with
    | reachable => exact hreachable ⟨f, hf, hs⟩
    | unreachable => exact hundecided rfl
    | unavailable => exact hunavailable ⟨f, hf, hs⟩

/-- The verdict is the one that the outcomes of the questions call for, except
that it is `safe` where some questions were never answered, none failed and none
was answered "reachable".  In a finished analysis that cannot happen while the
service is open and its oracle always replies. -/
theorem verdict_due_unless_unanswered (statuses : List Finding.Status) :
    (Verdict.fold statuses = .violated ↔ .reachable ∈ statuses) ∧
    (Verdict.fold statuses = .inconclusive ↔
      .reachable ∉ statuses ∧ .unavailable ∈ statuses) ∧
    (Verdict.fold statuses ≠ Verdict.due statuses ↔ Verdict.Overlooks statuses) ∧
    ∀ (id text : Text) (s s' : Session), s.draft = none →
      Act.pipeline id text s = (.ok (), s') →
      ∃ d enc result, Description.read text = .ok d ∧
        encode d
          (compose d ⟨s.service.options.maxConcurrency, s.service.options.deduplicate⟩).transitions
          ⟨s.service.options.bound, "job_" ++ Act.plain id⟩ = .ok enc ∧
        s'.draft = some result ∧
        List.Forall₂
          (fun h f => f.Reflects s.service.oracle
            ⟨some enc.system, Act.artifactPath s.service.options.workDir id, h.marking⟩)
          enc.hazards result.findings ∧
        (result.findings.map (·.status) = statuses →
          result.verdict = (Verdict.fold statuses).text ∧
          (s.service.isOpen = true →
            (∀ q allowance, (s.service.oracle.consult q allowance).reply ≠ ⟨none, none⟩) →
            result.verdict = (Verdict.due statuses).text)) := by
  refine ⟨Verdict.fold_eq_violated_iff, Verdict.fold_eq_inconclusive_iff,
    Verdict.fold_ne_due_iff, ?_⟩
  intro id text s s' hfresh hrun
  obtain ⟨d, enc, result, hread, hencode, hdraft, hreflects, hanswered, hverdict⟩ :=
    Act.pipeline_result hfresh hrun
  refine ⟨d, enc, result, hread, hencode, hdraft, hreflects, ?_⟩
  rintro rfl
  refine ⟨hverdict, ?_⟩
  intro hopen hreplies
  have hmem : ∀ f ∈ result.findings, ∃ q, f.Reflects s.service.oracle q :=
    fun f hf => Finding.exists_reflects_of_mem hreflects hf
  rw [hverdict, Verdict.fold_eq_due_of_answered hmem (hanswered hopen hreplies)]

/-! ## Open and closed services -/

/-- An idle agent that is served turns active, which it must not. -/
def servedText : Text :=
  Text.cat
    ["idle: 1, active: 0\n",
      "go\n",
      "idle,sync,go,go,active\n",
      "idle\n",
      "idle\n",
      "s0, s1\n",
      "sync\n",
      "s0\n",
      "s0,sync,go,s1\n"]

/-- A service with an empty store that searches the state space. -/
def searchingService (isOpen : Bool) : Service where
  options := ⟨1, 1, true, "work", 1⟩
  oracle := .explicit 100
  registry := ⟨.memory {}, { now := 0 }, 0⟩
  isOpen := isOpen

theorem Explicit.ask_replies (maxStates : Int) (allowance : Allowance) (q : Query) :
    ask maxStates allowance q ≠ ⟨none, none⟩ := by
  unfold ask
  split
  · simp
  · simp only
    split <;> simp

/-- The service at work on a job that is pending. -/
def searchingSession : Session where
  service :=
    { searchingService true with
      registry := ⟨.memory { table := [⟨.new "first" 0, []⟩] }, { now := 0 }, 1⟩ }
  context := .unlimited

theorem verdict_due_unless_unanswered_served :
    Verdict.Overlooks [.other []] ∧ Verdict.fold [.other []] ≠ Verdict.due [.other []] ∧
      ∃ s' result, searchingSession.draft = none ∧
        Act.pipeline "first" servedText searchingSession = (.ok (), s') ∧
        s'.draft = some result ∧ result.findings.map (·.status) = [.reachable] ∧
        result.verdict = (Verdict.due [.reachable]).text := by
  have hoverlooks : Verdict.Overlooks [.other []] := by
    refine ⟨by decide, by decide, .other [], List.mem_singleton_self _, by decide⟩
  have hends : (Act.pipeline "first" servedText searchingSession).1.toOption.isSome = true ∧
      (Act.pipeline "first" servedText searchingSession).2.draft.map
        (fun r => r.findings.map (·.status)) = some [.reachable] := by
    decide +kernel
  refine ⟨hoverlooks, (verdict_due_unless_unanswered [.other []]).2.2.1.mpr hoverlooks, ?_⟩
  rcases hrun : Act.pipeline "first" servedText searchingSession with ⟨e | u, s'⟩
  · rw [hrun] at hends
    cases hends.1
  · obtain ⟨d, enc, result, -, -, hdraft, -, hdue⟩ :=
      (verdict_due_unless_unanswered [.reachable]).2.2.2 "first" servedText searchingSession s'
        rfl hrun
    have hstatuses : result.findings.map (·.status) = [.reachable] := by
      rw [hrun, hdraft] at hends
      exact Option.some.inj hends.2
    refine ⟨s', result, rfl, rfl, hdraft, hstatuses, (hdue hstatuses).2 rfl ?_⟩
    exact fun q allowance => Explicit.ask_replies 100 allowance q

/-- The verdict about a text and the statuses that it was folded from. -/
def Service.verdictOn (v : Service) (text : Text) : Option (Text × List Finding.Status) :=
  ((v.perform .unlimited (Act.checkText text)).1.toOption.bind (·.result)).map fun r =>
    (r.verdict, r.findings.map (·.status))

/-- The same description is found unsafe by an open service and passed as safe by
a closed one, which has asked no question at all. -/
theorem closed_service_overlooks :
    (searchingService true).verdictOn servedText =
        some (Verdict.violated.text, [.reachable]) ∧
      (searchingService false).verdictOn servedText = some (Verdict.safe.text, [.other []]) ∧
      Verdict.due [.other []] = .inconclusive := by
  refine ⟨?_, ?_, rfl⟩
  · decide +kernel
  · decide +kernel

end Population
