import Population.Proofs.Job.Requests

/-!
# Histories of a store

Any number of clients call a store, one call after the other.  A log keeps the
requests with their answers, and a history is a log together with the store that
it leads to.
-/

namespace Population.Store

/-! ## Logs -/

/-- A request with its answer. -/
structure Exchange where
  request : Request
  answer : Except StoreError Answer

namespace Exchange

/-- The job that was created. -/
def created? (x : Exchange) : Option Text :=
  match x.request.call, x.answer with
  | .create _ id, .ok _ => some id
  | _, _ => none

/-- The update that was added, and its job. -/
def appended? (x : Exchange) : Option (Text × Progress) :=
  match x.request.call, x.answer with
  | .append _ id _ _, .ok (.update u) => some (id, u)
  | _, _ => none

/-- The job that was ended, and the reading of the clock. -/
def finished? (x : Exchange) : Option (Text × Int) :=
  match x.request.call, x.answer with
  | .finish now id _ _, .ok _ => some (id, now)
  | _, _ => none

end Exchange

/-- Requests with their answers, oldest first. -/
abbrev Log := List Exchange

namespace Log

/-- The jobs that were created. -/
def created (log : Log) : List Text :=
  log.filterMap Exchange.created?

/-- The updates that were added, each with its job. -/
def appends (log : Log) : List (Text × Progress) :=
  log.filterMap Exchange.appended?

/-- The updates that were added to a job. -/
def appended (log : Log) (id : Text) : List Progress :=
  (log.appends.filter (·.1 = id)).map Prod.snd

/-- When a job was ended. -/
def finishes (log : Log) (id : Text) : List Int :=
  ((log.filterMap Exchange.finished?).filter (·.1 = id)).map Prod.snd

variable {log : Log} {x : Exchange} {id id' : Text}

@[simp]
theorem created_append (log log' : Log) : created (log ++ log') = created log ++ created log' :=
  List.filterMap_append

@[simp]
theorem appends_append (log log' : Log) : appends (log ++ log') = appends log ++ appends log' :=
  List.filterMap_append

@[simp]
theorem appended_append (log log' : Log) (id : Text) :
    appended (log ++ log') id = appended log id ++ appended log' id := by
  simp [appended]

theorem nodup_created_of_append {log' : Log} (h : (created (log ++ log')).Nodup) :
    log.created.Nodup := by
  rw [created_append, List.nodup_append] at h
  exact h.1

theorem created_concat_of_none (h : x.created? = none) : created (log ++ [x]) = created log := by
  simp [created, h]

theorem created_concat_of_some (h : x.created? = some id) :
    created (log ++ [x]) = created log ++ [id] := by
  simp [created, h]

theorem appends_concat_of_none (h : x.appended? = none) : appends (log ++ [x]) = appends log := by
  simp [appends, h]

theorem appends_concat_of_some {u : Progress} (h : x.appended? = some (id, u)) :
    appends (log ++ [x]) = appends log ++ [(id, u)] := by
  simp [appends, h]

theorem appended_concat_of_none (h : x.appended? = none) (id : Text) :
    appended (log ++ [x]) id = appended log id := by
  simp [appended, appends, h]

theorem appended_concat_of_some {u : Progress} (h : x.appended? = some (id, u)) :
    appended (log ++ [x]) id = appended log id ++ [u] := by
  simp [appended, appends, h]

theorem appended_concat_of_ne {u : Progress} (h : x.appended? = some (id', u)) (hne : id' ≠ id) :
    appended (log ++ [x]) id = appended log id := by
  simp [appended, appends, h, hne]

theorem finishes_concat_of_none (h : x.finished? = none) (id : Text) :
    finishes (log ++ [x]) id = finishes log id := by
  simp [finishes, h]

theorem finishes_concat_of_some {t : Int} (h : x.finished? = some (id, t)) :
    finishes (log ++ [x]) id = finishes log id ++ [t] := by
  simp [finishes, h]

theorem finishes_concat_of_ne {t : Int} (h : x.finished? = some (id', t)) (hne : id' ≠ id) :
    finishes (log ++ [x]) id = finishes log id := by
  simp [finishes, h, hne]

end Log

/-- The log of calls that lead from one store to another. -/
inductive History (s₀ : Store) : Log → Store → Prop
  | start : History s₀ [] s₀
  | call {log : Log} {s : Store} (h : History s₀ log s) (r : Request) :
      History s₀ (log ++ [⟨r, (s.respond r).1⟩]) (s.respond r).2

theorem History.append
    {s₀ s s' : Store} {log log' : Log} (h : History s₀ log s) (h' : History s log' s') :
    History s₀ (log ++ log') s' := by
  induction h' with
  | start => simpa using h
  | call _ r ih =>
      rw [← List.append_assoc]
      exact .call ih r

/-! ## Rules of a store -/

theorem History.isLike {s₀ s : Store} {log : Log} (h : History s₀ log s) (hready : s₀.IsReady) :
    s.IsLike s₀ := by
  induction h with
  | start => exact .refl s₀
  | call _ r ih => exact (respond_isLike (ih.ready hready) r).trans ih

/-- A store in memory stays one. -/
theorem History.exists_memory
    {log : Log} {m₀ : MemoryStore} {s : Store} (h : History (memory m₀) log s) :
    ∃ m : MemoryStore, s = memory m ∧ m.maxUpdates = m₀.maxUpdates := by
  have hlike := h.isLike trivial
  cases s with
  | memory m => exact ⟨m, rfl, hlike⟩
  | durable d => cases hlike

/-- A durable store stays one. -/
theorem History.exists_durable
    {log : Log} {d₀ : DurableStore} {s : Store} (h : History (durable d₀) log s)
    (hready : (durable d₀).IsReady) : ∃ d : DurableStore, s = durable d ∧ (durable d).IsReady := by
  have hlike := h.isLike hready
  cases s with
  | memory m => cases hlike
  | durable d => exact ⟨d, rfl, hlike.ready hready⟩

end Population.Store
