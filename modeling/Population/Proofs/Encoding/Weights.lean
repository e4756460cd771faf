import Population.Encoding.Basic
import Population.Proofs.Marking.Basic

/-!
# Weights as multiplicities

The weights of an environment state and a list of agent states give every state
the number of its occurrences, modulo 2^64.  They mention each state once.
-/

namespace Population

namespace Weights

/-- The weight of a state. -/
def amount (w : Weights) (s : Text) : Int64 :=
  (w.lookup s).getD 0

/-- The states that carry a weight. -/
def states (w : Weights) : List Text :=
  w.map (·.1)

theorem amount_cons (s : Text) (n : Int64) (rest : Weights) (x : Text) :
    amount ((s, n) :: rest) x = if x = s then n else amount rest x := by
  by_cases h : x = s
  · simp [amount, h]
  · simp [amount, List.lookup_cons, beq_eq_false_iff_ne.mpr h, h]

theorem mem_states_cons {s : Text} {n : Int64} {rest : Weights} {x : Text} :
    x ∈ states ((s, n) :: rest) ↔ x = s ∨ x ∈ states rest :=
  List.mem_cons

theorem amount_add (s : Text) (w : Weights) (x : Text) :
    (w.add s).amount x = if x = s then w.amount x + 1 else w.amount x := by
  induction w with
  | nil =>
      rw [add, amount_cons]
      rfl
  | cons e rest ih =>
      obtain ⟨k, n⟩ := e
      by_cases hk : k = s
      · rw [add, if_pos hk, amount_cons, amount_cons]
        by_cases hx : x = k
        · rw [if_pos hx, if_pos (hx.trans hk), if_pos hx]
        · rw [if_neg hx, if_neg (fun h => hx (h.trans hk.symm)), if_neg hx]
      · rw [add, if_neg hk, amount_cons, amount_cons, ih]
        by_cases hx : x = k
        · rw [if_pos hx, if_pos hx, if_neg (fun h => hk (hx.symm.trans h))]
        · rw [if_neg hx, if_neg hx]

theorem mem_states_add {s : Text} {w : Weights} {x : Text} :
    x ∈ states (w.add s) ↔ x = s ∨ x ∈ states w := by
  induction w with
  | nil => simp [add, states]
  | cons e rest ih =>
      obtain ⟨k, n⟩ := e
      by_cases hk : k = s
      · rw [add, if_pos hk, mem_states_cons, mem_states_cons, hk]
        tauto
      · rw [add, if_neg hk, mem_states_cons, mem_states_cons, ih]
        tauto

theorem states_add_nodup {s : Text} {w : Weights} (h : (states w).Nodup) :
    (states (w.add s)).Nodup := by
  induction w with
  | nil => simp [add, states]
  | cons e rest ih =>
      obtain ⟨k, n⟩ := e
      obtain ⟨hfresh, hrest⟩ := List.nodup_cons.mp h
      by_cases hk : k = s
      · rw [add, if_pos hk]
        exact h
      · rw [add, if_neg hk]
        refine List.nodup_cons.mpr ⟨?_, ih hrest⟩
        intro hmem
        rcases mem_states_add.mp hmem with heq | hmem
        · exact hk heq
        · exact hfresh hmem

theorem amount_foldl_add (agents : List Text) (w : Weights) (x : Text) :
    (agents.foldl (fun w s => w.add s) w).amount x =
      w.amount x + Int64.ofNat (agents.count x) := by
  induction agents generalizing w with
  | nil => simp
  | cons s rest ih =>
      rw [List.foldl_cons, ih, amount_add, List.count_cons]
      by_cases hx : x = s
      · subst hx
        simp only [if_true, beq_self_eq_true, Int64.ofNat_add]
        have hone : Int64.ofNat 1 = 1 := rfl
        rw [hone]
        ac_rfl
      · have hbeq : (s == x) = false := beq_eq_false_iff_ne.mpr (Ne.symm hx)
        simp [hx, hbeq]

/-- A state weighs as much as it occurs. -/
theorem amount_of (env : Text) (agents : List Text) (x : Text) :
    (of env agents).amount x = Int64.ofNat ((env :: agents).count x) := by
  rw [of, amount_foldl_add, amount_cons, List.count_cons]
  by_cases hx : x = env
  · subst hx
    simp only [if_true, beq_self_eq_true, Int64.ofNat_add]
    have hone : Int64.ofNat 1 = 1 := rfl
    rw [hone]
    ac_rfl
  · have hbeq : (env == x) = false := beq_eq_false_iff_ne.mpr (Ne.symm hx)
    simp [hx, hbeq, amount]

theorem mem_states_foldl_add {agents : List Text} {w : Weights} {x : Text} :
    x ∈ states (agents.foldl (fun w s => w.add s) w) ↔ x ∈ states w ∨ x ∈ agents := by
  induction agents generalizing w with
  | nil => simp
  | cons s rest ih =>
      rw [List.foldl_cons, ih, mem_states_add, List.mem_cons]
      tauto

theorem mem_states_of {env : Text} {agents : List Text} {x : Text} :
    x ∈ states (of env agents) ↔ x ∈ env :: agents := by
  rw [of, mem_states_foldl_add]
  simp [states]

theorem states_of_nodup (env : Text) (agents : List Text) :
    (states (of env agents)).Nodup := by
  have hfold : ∀ w : Weights, (states w).Nodup →
      (states (agents.foldl (fun w s => w.add s) w)).Nodup := by
    induction agents with
    | nil => exact fun w hw => hw
    | cons s rest ih => exact fun w hw => ih (w.add s) (states_add_nodup hw)
  exact hfold _ (by simp [states])

/-- A weight is listed once, under its state. -/
theorem amount_of_mem {w : Weights} (hnodup : (states w).Nodup) {s : Text} {n : Int64}
    (h : (s, n) ∈ w) : w.amount s = n := by
  rw [amount, Marking.lookup_of_mem hnodup h, Option.getD_some]

theorem mem_of_mem_states {w : Weights} (hnodup : (states w).Nodup) {s : Text}
    (h : s ∈ states w) : (s, w.amount s) ∈ w := by
  obtain ⟨⟨k, n⟩, hmem, rfl⟩ := List.mem_map.mp h
  rwa [amount_of_mem hnodup hmem]

/-- As a marking the weights read as their amounts. -/
theorem get_marking {w : Weights} (hnodup : (states w).Nodup) (s : Text) :
    w.marking.get s = w.amount s :=
  Marking.get_ofList hnodup s

end Weights

end Population
