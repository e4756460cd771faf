import Population.Analysis.Pipeline
import Population.Proofs.Refusal

/-!
# What operations leave alone

An operation of the service may be refused, and what it did before stays done.
A view of the session that each step keeps is kept by the whole operation, refused
or not: so reporting, logging and counting touch neither the result so far nor the
oracle and the options, and the steps of an analysis before its questions add no
finding.
-/

namespace Population

open Refusal (run_bind exists_of_bind_eq_ok)

namespace Act

variable {ε ε' α β : Type}

/-! ## Views -/

/-- The operation keeps what the view shows, refused or not. -/
def Keeps {γ : Type} (view : Session → γ) (act : Act ε α) : Prop :=
  ∀ s, view (act s).2 = view s

section Keeps

variable {γ : Type} {view : Session → γ}

theorem Keeps.eq {act : Act ε α} (h : Keeps view act) {s s' : Session} {x : Except ε α}
    (hrun : act s = (x, s')) : view s' = view s := by
  have hview := h s
  rwa [hrun] at hview

theorem keeps_pure (a : α) : Keeps view (pure a : Act ε α) :=
  fun _ => rfl

theorem keeps_throw (e : ε) : Keeps view (throw e : Act ε α) :=
  fun _ => rfl

theorem Keeps.bind {act : Act ε α} {f : α → Act ε β} (hact : Keeps view act)
    (hf : ∀ a, Keeps view (f a)) : Keeps view (act >>= f) := by
  intro s
  rw [run_bind]
  rcases hrun : act s with ⟨e | a, s₁⟩
  · exact hact.eq hrun
  · exact (hf a s₁).trans (hact.eq hrun)

theorem keeps_modify {f : Session → Session} (hf : ∀ s, view (f s) = view s) :
    Keeps view (modify f : Act ε Unit) :=
  hf

theorem keeps_get : Keeps view (get : Act ε Session) :=
  fun _ => rfl

theorem keeps_look (f : Service → α) : Keeps view (look f : Act ε α) :=
  fun _ => rfl

theorem Keeps.refusing {wrap : ε → ε'} {act : Act ε α} (h : Keeps view act) :
    Keeps view (act.refusing wrap) :=
  fun s => h s

theorem Keeps.comp {δ : Type} {act : Act ε α} (h : Keeps view act) (g : γ → δ) :
    Keeps (fun s => g (view s)) act :=
  fun s => congrArg g (h s)

end Keeps

end Act

/-! ## Reporting -/

/-- What an analysis works with: the oracle, the options, and whether questions
may be asked. -/
def Session.setting (s : Session) : Oracle × AnalysisOptions × Bool :=
  (s.service.oracle, s.service.options, s.service.isOpen)

/-- The result so far and the setting. -/
def Session.frame (s : Session) : Option JobResult × Oracle × AnalysisOptions × Bool :=
  (s.draft, s.setting)

namespace Act

open Session (frame)

variable {ε α : Type}

theorem keeps_change
    {f : Service → Service}
    (hf : ∀ v, (f v).oracle = v.oracle ∧ (f v).options = v.options ∧ (f v).isOpen = v.isOpen) :
    Keeps frame (change f : Act ε Unit) := by
  apply keeps_modify
  intro s
  obtain ⟨horacle, hoptions, hopen⟩ := hf s.service
  simp only [frame, Session.setting, horacle, hoptions, hopen]

theorem keeps_permitted : Keeps frame (permitted : Act ε Bool) := by
  refine keeps_get.bind fun s => ?_
  split
  · exact keeps_pure _
  · refine Keeps.bind (keeps_modify ?_) fun _ => keeps_pure _
    exact fun _ => rfl

theorem keeps_log (level : Level) (message : Text) (attributes : List (Text × LogValue)) :
    Keeps frame (log level message attributes : Act ε Unit) :=
  keeps_change fun _ => ⟨rfl, rfl, rfl⟩

theorem keeps_measure (f : Metrics → Metrics) : Keeps frame (measure f : Act ε Unit) :=
  keeps_change fun _ => ⟨rfl, rfl, rfl⟩

theorem keeps_getsThrough (which : StoreCall) : Keeps frame (getsThrough which : Act ε Bool) := by
  refine (keeps_look _).bind fun b => ?_
  split
  · exact keeps_pure _
  · split
    · exact keeps_pure _
    · split
      · exact keeps_pure _
      · refine Keeps.bind (keeps_change ?_) fun _ => keeps_pure _
        exact fun _ => ⟨rfl, rfl, rfl⟩

theorem keeps_registry (f : Registry → Except StoreError α × Registry) :
    Keeps frame (registry f) := by
  refine (keeps_look _).bind fun r => ?_
  rcases f r with ⟨e | a, r'⟩
  · refine Keeps.bind (keeps_change ?_) fun _ => keeps_throw e
    exact fun _ => ⟨rfl, rfl, rfl⟩
  · refine Keeps.bind (keeps_change ?_) fun _ => keeps_pure a
    exact fun _ => ⟨rfl, rfl, rfl⟩

theorem keeps_call
    (which : StoreCall) (f : Bool → Registry → Except StoreError α × Registry) :
    Keeps frame (call which f) := by
  refine (keeps_getsThrough which).bind fun through => ?_
  split
  · exact keeps_permitted.bind fun allowed => keeps_registry (f allowed)
  · exact (keeps_look _).bind keeps_throw

theorem keeps_announce (id : Text) (u : Progress) : Keeps frame (announce id u : Act ε Unit) := by
  refine (keeps_look _).bind fun b => ?_
  split
  · exact keeps_pure _
  · split
    · exact keeps_change fun _ => ⟨rfl, rfl, rfl⟩
    · exact keeps_log _ _ _

theorem keeps_report (id : Text) (kind : Kind) (message : Text) :
    Keeps frame (report id kind message) := by
  have hrecord : Keeps frame (record id kind message) :=
    (keeps_call _ _).refusing.bind fun _ => (keeps_log _ _ _).bind fun _ => keeps_pure _
  exact hrecord.bind fun u => keeps_announce id u

theorem keeps_tell (id : Text) (kind : Kind) (message : Text) :
    Keeps frame (tell id kind message) :=
  (keeps_report id kind message).refusing

theorem keeps_tellAll (id : Text) (kind : Kind) (messages : List Text) :
    Keeps frame (tellAll id kind messages) := by
  induction messages with
  | nil => exact keeps_pure _
  | cons m rest ih => exact (keeps_tell id kind m).bind fun _ => ih

end Act

/-! ## Steps of an analysis -/

/-- The findings so far. -/
def Session.findings (s : Session) : List Finding :=
  (s.draft.getD {}).findings

/-- The findings so far and the setting. -/
def Session.ledger (s : Session) : List Finding × Oracle × AnalysisOptions × Bool :=
  (s.findings, s.setting)

theorem Session.findings_eq {s s' : Session} (h : s'.frame = s.frame) :
    s'.findings = s.findings :=
  congrArg (fun frame => (Option.getD frame.1 {}).findings) h

/-- An analysis begins without findings. -/
theorem Session.findings_of_ledger
    {s s' : Session} (hfresh : s.draft = none) (h : s'.ledger = s.ledger) : s'.findings = [] := by
  have hfindings : s'.findings = s.findings := congrArg Prod.fst h
  rw [hfindings, findings, hfresh]
  rfl

theorem Session.setting_eq {s s' : Session} (h : s'.frame = s.frame) : s'.setting = s.setting :=
  congrArg Prod.snd h

namespace Act

open Session (frame)

section Steps

variable {id text : Text} {s s' : Session}

theorem Keeps.ledger {ε α : Type} {act : Act ε α} (h : Keeps frame act) :
    Keeps Session.ledger act :=
  h.comp fun frame => ((frame.1.getD {}).findings, frame.2)

theorem keeps_revise {f : JobResult → JobResult} (hf : ∀ r, (f r).findings = r.findings) :
    Keeps Session.ledger (revise f) := by
  apply keeps_modify
  intro s
  exact congrArg (·, s.setting) (hf (s.draft.getD {}))

theorem keeps_readDescription (id text : Text) :
    Keeps Session.ledger (readDescription id text) := by
  unfold readDescription
  split
  · exact keeps_throw _
  · refine Keeps.bind (keeps_revise ?_) fun _ => (keeps_tell _ _ _).ledger.bind fun _ =>
      (keeps_tellAll _ _ _).ledger.bind fun _ => keeps_pure _
    exact fun _ => rfl

theorem keeps_composeAll (id : Text) (d : Description) :
    Keeps Session.ledger (composeAll id d) := by
  refine (keeps_look _).bind fun opts => (keeps_measure _).ledger.bind fun _ =>
    Keeps.bind (keeps_revise ?_) fun _ => (keeps_tellAll _ _ _).ledger.bind fun _ =>
      (keeps_tell _ _ _).ledger.bind fun _ => keeps_pure _
  exact fun _ => rfl

theorem keeps_encodeAll (id : Text) (d : Description) (c : Composition) :
    Keeps Session.ledger (encodeAll id d c) := by
  refine (keeps_look _).bind fun opts => ?_
  split
  · exact keeps_throw _
  · refine (keeps_measure _).ledger.bind fun _ => Keeps.bind (keeps_revise ?_) fun _ =>
      (keeps_tell _ _ _).ledger.bind fun _ => keeps_pure _
    exact fun _ => rfl

theorem keeps_writeArtifact (id : Text) (enc : Encoding) :
    Keeps Session.ledger (writeArtifact id enc) := by
  refine (keeps_look _).bind fun opts => (keeps_look _).bind fun w => ?_
  split
  · exact keeps_throw _
  · refine Keeps.bind (keeps_change ?_).ledger fun _ => ?_
    · exact fun _ => ⟨rfl, rfl, rfl⟩
    · split
      · exact keeps_throw _
      · refine Keeps.bind (keeps_change ?_).ledger fun _ => Keeps.bind (keeps_revise ?_) fun _ =>
          (keeps_tell _ _ _).ledger.bind fun _ => keeps_pure _
        · exact fun _ => ⟨rfl, rfl, rfl⟩
        · exact fun _ => rfl

theorem read_of_readDescription {d : Description}
    (hrun : readDescription id text s = (.ok d, s')) : Description.read text = .ok d := by
  unfold readDescription at hrun
  cases hread : Description.read text with
  | error e =>
      rw [hread] at hrun
      cases hrun
  | ok d' =>
      rw [hread] at hrun
      obtain ⟨_, s₁, -, hrun⟩ := exists_of_bind_eq_ok hrun
      obtain ⟨_, s₂, -, hrun⟩ := exists_of_bind_eq_ok hrun
      obtain ⟨_, s₃, -, hrun⟩ := exists_of_bind_eq_ok hrun
      cases hrun
      rfl

theorem eq_of_composeAll {d : Description} {c : Composition}
    (hrun : composeAll id d s = (.ok c, s')) :
    c = compose d ⟨s.service.options.maxConcurrency, s.service.options.deduplicate⟩ := by
  obtain ⟨opts, s₁, hlook, hrun⟩ := exists_of_bind_eq_ok hrun
  cases hlook
  obtain ⟨_, s₂, -, hrun⟩ := exists_of_bind_eq_ok hrun
  obtain ⟨_, s₃, -, hrun⟩ := exists_of_bind_eq_ok hrun
  obtain ⟨_, s₄, -, hrun⟩ := exists_of_bind_eq_ok hrun
  obtain ⟨_, s₅, -, hrun⟩ := exists_of_bind_eq_ok hrun
  cases hrun
  rfl

theorem encode_of_encodeAll {d : Description} {c : Composition} {enc : Encoding}
    (hrun : encodeAll id d c s = (.ok enc, s')) :
    encode d c.transitions ⟨s.service.options.bound, "job_" ++ plain id⟩ = .ok enc := by
  obtain ⟨opts, s₁, hlook, hrun⟩ := exists_of_bind_eq_ok hrun
  cases hlook
  cases hencode : encode d c.transitions ⟨s.service.options.bound, "job_" ++ plain id⟩ with
  | error e =>
      rw [hencode] at hrun
      cases hrun
  | ok enc' =>
      rw [hencode] at hrun
      obtain ⟨_, s₂, -, hrun⟩ := exists_of_bind_eq_ok hrun
      obtain ⟨_, s₃, -, hrun⟩ := exists_of_bind_eq_ok hrun
      obtain ⟨_, s₄, -, hrun⟩ := exists_of_bind_eq_ok hrun
      cases hrun
      rfl

theorem path_of_writeArtifact {enc : Encoding} {path : Text}
    (hrun : writeArtifact id enc s = (.ok path, s')) :
    path = artifactPath s.service.options.workDir id := by
  obtain ⟨opts, s₁, hlook, hrun⟩ := exists_of_bind_eq_ok hrun
  cases hlook
  obtain ⟨w, s₂, hlook, hrun⟩ := exists_of_bind_eq_ok hrun
  cases hlook
  cases hfolder : s.service.workspace.makeFolder s.service.options.workDir with
  | error e =>
      rw [hfolder] at hrun
      cases hrun
  | ok w =>
      rw [hfolder] at hrun
      obtain ⟨_, s₃, -, hrun⟩ := exists_of_bind_eq_ok hrun
      cases hwrite : w.write (artifactPath s.service.options.workDir id) enc.system.text with
      | error e =>
          rw [hwrite] at hrun
          cases hrun
      | ok w' =>
          rw [hwrite] at hrun
          obtain ⟨_, s₄, -, hrun⟩ := exists_of_bind_eq_ok hrun
          obtain ⟨_, s₅, -, hrun⟩ := exists_of_bind_eq_ok hrun
          obtain ⟨_, s₆, -, hrun⟩ := exists_of_bind_eq_ok hrun
          cases hrun
          rfl

end Steps

end Act

end Population
