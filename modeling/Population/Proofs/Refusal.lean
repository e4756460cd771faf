import Population.Job.Basic

/-!
# Operations that may be refused

An operation on a state answers or is refused, and what it did before a refusal stays
done.  That a refused operation changes nothing is therefore a matter of order: what may
be refused comes first, and what changes the state is not refused any more.
-/

namespace Population.Refusal

variable {ε σ α β : Type}

/-! ## Runs step by step -/

theorem run_bind (act : ExceptT ε (StateM σ) α) (f : α → ExceptT ε (StateM σ) β) (s : σ) :
    (act >>= f) s = ExceptT.bindCont f (act s).1 (act s).2 :=
  rfl

theorem run_get_bind (f : σ → ExceptT ε (StateM σ) β) (s : σ) : (get >>= f) s = f s s :=
  rfl

theorem run_modify_bind (g : σ → σ) (f : PUnit → ExceptT ε (StateM σ) β) (s : σ) :
    ((modify g : ExceptT ε (StateM σ) PUnit) >>= f) s = f ⟨⟩ (g s) :=
  rfl

/-- What is known to be refused or not changes nothing. -/
theorem run_lift (x : Except ε α) (s : σ) : (liftM x : ExceptT ε (StateM σ) α) s = (x, s) := by
  cases x <;> rfl

theorem run_lift_bind (x : Except ε α) (f : α → ExceptT ε (StateM σ) β) (s : σ) :
    ((liftM x : ExceptT ε (StateM σ) α) >>= f) s =
      match x with
      | .error e => (.error e, s)
      | .ok a => f a s := by
  rw [run_bind, run_lift]
  cases x <;> rfl

section Runs

variable {act : ExceptT ε (StateM σ) α} {s s' : σ} {a : α} {e : ε}

theorem bind_of_ok (h : act s = (.ok a, s')) (f : α → ExceptT ε (StateM σ) β) :
    (act >>= f) s = f a s' := by
  rw [run_bind, h]
  rfl

theorem bind_of_error (h : act s = (.error e, s')) (f : α → ExceptT ε (StateM σ) β) :
    (act >>= f) s = (.error e, s') := by
  rw [run_bind, h]
  rfl

/-- A run that was not refused splits at every step. -/
theorem exists_of_bind_eq_ok
    {f : α → ExceptT ε (StateM σ) β} {b : β} (h : (act >>= f) s = (.ok b, s')) :
    ∃ a s₁, act s = (.ok a, s₁) ∧ f a s₁ = (.ok b, s') := by
  rw [run_bind] at h
  rcases hact : act s with ⟨e | a, s₁⟩
  · rw [hact] at h
    cases h
  · rw [hact] at h
    exact ⟨a, s₁, rfl, h⟩

end Runs

/-! ## Refusals -/

/-- The operation changes nothing. -/
def Reads (act : ExceptT ε (StateM σ) α) : Prop :=
  ∀ s, (act s).2 = s

/-- The operation is never refused. -/
def Answers (act : ExceptT ε (StateM σ) α) : Prop :=
  ∀ s e, (act s).1 ≠ .error e

/-- A refused operation changes nothing. -/
def Cautious (act : ExceptT ε (StateM σ) α) : Prop :=
  ∀ s e, (act s).1 = .error e → (act s).2 = s

section Refusals

variable {act : ExceptT ε (StateM σ) α} {f : α → ExceptT ε (StateM σ) β}

theorem reads_get : Reads (get : ExceptT ε (StateM σ) σ) :=
  fun _ => rfl

theorem reads_pure (a : α) : Reads (pure a : ExceptT ε (StateM σ) α) :=
  fun _ => rfl

theorem reads_throw (e : ε) : Reads (throw e : ExceptT ε (StateM σ) α) :=
  fun _ => rfl

theorem reads_lift (x : Except ε α) : Reads (liftM x : ExceptT ε (StateM σ) α) :=
  fun s => congrArg Prod.snd (run_lift x s)

theorem Reads.bind (hact : Reads act) (hf : ∀ a, Reads (f a)) : Reads (act >>= f) := by
  intro s
  have hsame := hact s
  rcases hrun : act s with ⟨e | a, s₁⟩
  · rw [hrun] at hsame
    rw [bind_of_error hrun]
    exact hsame
  · rw [hrun] at hsame
    rw [bind_of_ok hrun]
    exact (hf a s₁).trans hsame

theorem answers_get : Answers (get : ExceptT ε (StateM σ) σ) :=
  fun _ _ h => by cases h

theorem answers_modify (g : σ → σ) : Answers (modify g : ExceptT ε (StateM σ) PUnit) :=
  fun _ _ h => by cases h

theorem answers_modifyGet (g : σ → α × σ) : Answers (modifyGet g : ExceptT ε (StateM σ) α) :=
  fun _ _ h => by cases h

theorem answers_pure (a : α) : Answers (pure a : ExceptT ε (StateM σ) α) :=
  fun _ _ h => by cases h

theorem Answers.bind (hact : Answers act) (hf : ∀ a, Answers (f a)) : Answers (act >>= f) := by
  intro s e h
  rcases hrun : act s with ⟨e' | a, s₁⟩
  · exact hact s e' (congrArg Prod.fst hrun)
  · rw [bind_of_ok hrun] at h
    exact hf a s₁ e h

theorem Answers.cautious (h : Answers act) : Cautious act :=
  fun s e herror => absurd herror (h s e)

theorem Reads.cautious (h : Reads act) : Cautious act :=
  fun s _ _ => h s

theorem Reads.bind_cautious (hact : Reads act) (hf : ∀ a, Cautious (f a)) :
    Cautious (act >>= f) := by
  intro s e h
  have hsame := hact s
  rcases hrun : act s with ⟨e' | a, s₁⟩
  · rw [hrun] at hsame
    rw [bind_of_error hrun]
    exact hsame
  · rw [hrun] at hsame
    obtain rfl : s₁ = s := hsame
    rw [bind_of_ok hrun] at h ⊢
    exact hf a s₁ e h

end Refusals

end Population.Refusal
