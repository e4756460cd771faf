import Population.Job.Durable
import Population.Proofs.Text.Decoding
import Mathlib.Data.List.Forall2

/-!
# What results say

Two results say the same when they agree in every text and number; a word may be
one of the known ones or spelled out, and a map may be built in another order.  A
result that was stored as text and read again says the same as before if all of its
texts are valid.
-/

namespace Population

/-! ## Saying the same -/

/-- Two findings say the same. -/
structure Finding.Same (f f' : Finding) : Prop where
  configuration : f'.configuration = f.configuration
  transitions : f'.transitions = f.transitions
  status : f'.status.text = f.status.text
  witness : f'.witness = f.witness
  error : f'.error = f.error

/-- Two summaries say the same. -/
structure Summary.Same (s s' : Summary) : Prop where
  agentStates : s'.agentStates = s.agentStates
  agentActions : s'.agentActions = s.agentActions
  agentProtocol : s'.agentProtocol.Equiv s.agentProtocol
  environmentStates : s'.environmentStates = s.environmentStates
  environmentActions : s'.environmentActions = s.environmentActions
  environmentProtocol : s'.environmentProtocol.Equiv s.environmentProtocol

/-- Two results say the same. -/
structure JobResult.Same (r r' : JobResult) : Prop where
  verdict : r'.verdict = r.verdict
  findings : List.Forall₂ Finding.Same r.findings r'.findings
  globalTransitions : r'.globalTransitions = r.globalTransitions
  guardedTransitions : r'.guardedTransitions = r.guardedTransitions
  unmatched : r'.unmatched = r.unmatched
  artifact : r'.artifact = r.artifact
  protocol : Option.Rel Summary.Same r.protocol r'.protocol

/-- Two jobs agree in every field, and their results say the same. -/
structure Job.Same (j j' : Job) : Prop where
  id : j'.id = j.id
  status : j'.status = j.status
  created : j'.created = j.created
  updated : j'.updated = j.updated
  finished : j'.finished = j.finished
  result : Option.Rel JobResult.Same j.result j'.result

/-! ## Texts -/

/-- The texts of a finding. -/
def Finding.texts (f : Finding) : List Text :=
  [f.configuration, f.status.text, f.error] ++ f.transitions ++ f.witness

/-- The texts of a map. -/
def ProtocolMap.texts (m : ProtocolMap) : List Text :=
  m.toList.flatMap fun (state, actions) => state :: actions

/-- The texts of a summary. -/
def Summary.texts (s : Summary) : List Text :=
  s.agentStates.map Prod.fst ++ s.agentActions ++ ProtocolMap.texts s.agentProtocol ++
    s.environmentStates ++ s.environmentActions ++ ProtocolMap.texts s.environmentProtocol

/-- The texts of a result. -/
def JobResult.texts (r : JobResult) : List Text :=
  [r.verdict, r.artifact] ++ r.findings.flatMap Finding.texts ++ r.protocol.elim [] Summary.texts

/-! ## Reading again -/

theorem Text.map_repaired {ts : List Text} (h : ∀ t ∈ ts, t.isValid = true) :
    ts.map Text.repaired = ts :=
  List.map_congr_left (fun t ht => Text.repaired_of_isValid (h t ht)) |>.trans (List.map_id ts)

theorem Finding.Status.text_ofText (w : Text) : (ofText w).text = w := by
  by_cases hreachable : w = reachable.text
  · subst hreachable
    rfl
  by_cases hunreachable : w = unreachable.text
  · subst hunreachable
    rfl
  by_cases hunavailable : w = unavailable.text
  · subst hunavailable
    rfl
  have hother : ofText w = other w := by
    simp only [ofText, known, List.map_cons, List.map_nil, List.lookup_cons, List.lookup_nil,
      beq_false_of_ne hreachable, beq_false_of_ne hunreachable, beq_false_of_ne hunavailable,
      Option.getD_none]
  rw [hother, text]

namespace JobResult

theorem repairedFinding_same {f : Finding} (h : ∀ t ∈ f.texts, t.isValid = true) :
    f.Same (repairedFinding f) := by
  simp only [Finding.texts, List.mem_append, List.mem_cons, List.not_mem_nil, or_false] at h
  constructor
  · exact Text.repaired_of_isValid (h _ (by simp))
  · exact Text.map_repaired fun t ht => h t (by simp [ht])
  · exact (Finding.Status.text_ofText _).trans (Text.repaired_of_isValid (h _ (by simp)))
  · exact Text.map_repaired fun t ht => h t (by simp [ht])
  · exact Text.repaired_of_isValid (h _ (by simp))

/-- A map that is rebuilt from its entries is the same map. -/
theorem ofList_toList_equiv (m : ProtocolMap) :
    Std.TreeMap.Equiv (Std.TreeMap.ofList m.toList compare) m := by
  refine .of_forall_constGet?_eq fun k => ?_
  cases h : m[k]? with
  | some v =>
      have hmem : (k, v) ∈ m.toList := Std.TreeMap.mem_toList_iff_getElem?_eq_some.mpr h
      exact Std.TreeMap.getElem?_ofList_of_mem Std.ReflCmp.compare_self
        Std.TreeMap.distinct_keys_toList hmem
  | none =>
      refine Std.TreeMap.getElem?_ofList_of_contains_eq_false ?_
      rw [List.contains_eq_mem, decide_eq_false_iff_not]
      intro hmem
      obtain ⟨⟨_, v⟩, hentry, rfl⟩ := List.mem_map.mp hmem
      rw [Std.TreeMap.mem_toList_iff_getElem?_eq_some, h] at hentry
      cases hentry

theorem repairedMap_equiv {m : ProtocolMap} (h : ∀ t ∈ ProtocolMap.texts m, t.isValid = true) :
    (repairedMap m).Equiv m := by
  have hentries : (m.toList.map fun (k, v) => (Text.repaired k, v.map Text.repaired)) =
      m.toList := by
    refine (List.map_congr_left fun entry hentry => ?_).trans (List.map_id _)
    have hvalid : ∀ t ∈ entry.1 :: entry.2, t.isValid = true := fun t ht =>
      h t (List.mem_flatMap.mpr ⟨entry, hentry, ht⟩)
    rw [List.forall_mem_cons] at hvalid
    exact Prod.ext (Text.repaired_of_isValid hvalid.1) (Text.map_repaired hvalid.2)
  rw [repairedMap, hentries]
  exact ofList_toList_equiv m

theorem repairedSummary_same {s : Summary} (h : ∀ t ∈ s.texts, t.isValid = true) :
    s.Same (repairedSummary s) := by
  simp only [Summary.texts, List.mem_append] at h
  constructor
  · refine (List.map_congr_left fun state hstate => ?_).trans (List.map_id _)
    have hname : state.1 ∈ s.agentStates.map Prod.fst := List.mem_map_of_mem hstate
    exact Prod.ext (Text.repaired_of_isValid (h _ (by simp only [hname, true_or]))) rfl
  · exact Text.map_repaired fun t ht => h t (by simp only [ht, true_or, or_true])
  · exact repairedMap_equiv fun t ht => h t (by simp only [ht, true_or, or_true])
  · exact Text.map_repaired fun t ht => h t (by simp only [ht, true_or, or_true])
  · exact Text.map_repaired fun t ht => h t (by simp only [ht, true_or, or_true])
  · exact repairedMap_equiv fun t ht => h t (by simp only [ht, or_true])

/-- A result with valid texts says the same when it is read again. -/
theorem repaired_same {r : JobResult} (h : ∀ t ∈ r.texts, t.isValid = true) :
    r.Same r.repaired := by
  simp only [texts, List.mem_append, List.mem_cons, List.not_mem_nil, or_false] at h
  constructor
  · exact Text.repaired_of_isValid (h _ (by simp))
  · rw [repaired, List.forall₂_map_right_iff, List.forall₂_same]
    intro f hf
    refine repairedFinding_same fun t ht => h t (.inl (.inr ?_))
    exact List.mem_flatMap.mpr ⟨f, hf, ht⟩
  · rfl
  · rfl
  · rfl
  · exact Text.repaired_of_isValid (h _ (by simp))
  · rw [repaired]
    cases hprotocol : r.protocol with
    | none => exact .none
    | some s =>
        refine .some (repairedSummary_same fun t ht => h t (.inr ?_))
        rwa [hprotocol]

end JobResult

end Population
