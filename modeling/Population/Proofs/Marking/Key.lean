import Population.Proofs.Marking.Basic
import Population.Proofs.Text.Decimal
import Population.Proofs.Text.Separated
import Population.Text.Word

/-!
# Keys identify configurations

The key of a marking lists its counters that are not zero.  Names of counters
are identifiers, so neither the comma between two entries nor the colon inside
one can be mistaken, and markings of one key agree on every counter.
-/

namespace Population.Marking

open Text (byte)

theorem not_mem_of_isValid
    {name : Text} (h : Name.isValid name = true) {b : UInt8} (hb : Name.isPart b = false) :
    b ∉ name := by
  intro hmem
  rw [Name.isPart_of_mem h hmem] at hb
  simp at hb

theorem not_mem_ofInt64 {b : UInt8} (hminus : b ≠ byte '-') (hdigit : Text.isDigit b = false)
    (v : Int64) : b ∉ Text.ofInt64 v := by
  intro hmem
  rcases Text.mem_ofInt hmem with heq | htrue
  · exact hminus heq
  · rw [htrue] at hdigit
    simp at hdigit

theorem entryText_eq (e : Text × Int64) :
    entryText e = e.1 ++ byte ':' :: Text.ofInt64 e.2 :=
  List.append_assoc _ _ _

theorem entryText_separable {e : Text × Int64} (h : Name.isValid e.1 = true) :
    entryText e ≠ [] ∧ byte ',' ∉ entryText e := by
  rw [entryText_eq]
  constructor
  · simp
  · rw [List.mem_append, List.mem_cons]
    rintro (hname | hcolon | hvalue)
    · exact not_mem_of_isValid h (by decide) hname
    · exact absurd hcolon (by decide)
    · exact not_mem_ofInt64 (by decide) (by decide) _ hvalue

theorem entryText_inj
    {e f : Text × Int64} (he : Name.isValid e.1 = true) (hf : Name.isValid f.1 = true)
    (h : entryText e = entryText f) : e = f := by
  rw [entryText_eq, entryText_eq] at h
  obtain ⟨hname, hvalue⟩ := Text.append_cons_inj
    (not_mem_of_isValid he (by decide)) (not_mem_of_isValid hf (by decide)) h
  exact Prod.ext hname (Text.ofInt64_injective hvalue)

theorem eq_of_map_entryText_eq
    {es fs : List (Text × Int64)} (hes : ∀ e ∈ es, Name.isValid e.1 = true)
    (hfs : ∀ f ∈ fs, Name.isValid f.1 = true) (h : es.map entryText = fs.map entryText) :
    es = fs := by
  induction es generalizing fs with
  | nil => exact (List.map_eq_nil_iff.mp h.symm).symm
  | cons e rest ih =>
      obtain ⟨f, others, rfl, hfirst, hothers⟩ := List.map_eq_cons_iff.mp h.symm
      have heq : e = f :=
        entryText_inj (hes e List.mem_cons_self) (hfs f List.mem_cons_self) hfirst.symm
      rw [heq, ih (fun x hx => hes x (List.mem_cons_of_mem e hx))
        (fun x hx => hfs x (List.mem_cons_of_mem f hx)) hothers.symm]

/-- The entries that are not zero. -/
def support (m : Marking) : List (Text × Int64) :=
  m.entries.filter fun e => e.2 != 0

theorem key_eq (m : Marking) : m.key = Text.join [byte ','] (m.support.map entryText) := rfl

/-- A marking is read off its entries that are not zero. -/
theorem get_eq_lookup_support (m : Marking) (n : Text) :
    m.get n = (m.support.lookup n).getD 0 := by
  have hsublist : (m.support.map (·.1)).Sublist m.domain :=
    List.filter_sublist.map _
  have hnodup : (m.support.map (·.1)).Nodup := hsublist.nodup m.domain_nodup
  by_cases hzero : m.get n = 0
  · have habsent : n ∉ m.support.map (·.1) := by
      intro hmem
      obtain ⟨⟨k, v⟩, hentry, rfl⟩ := List.mem_map.mp hmem
      obtain ⟨hmem', hne⟩ := List.mem_filter.mp hentry
      rw [get_of_mem_entries hmem'] at hzero
      simp [hzero] at hne
    rw [hzero, lookup_of_not_mem habsent]
    rfl
  · have hdomain : n ∈ m.domain := by
      by_contra habsent
      exact hzero (get_of_not_mem_domain habsent)
    have hentry : (n, m.get n) ∈ m.support :=
      List.mem_filter.mpr ⟨mem_entries_of_mem_domain hdomain, by simpa using hzero⟩
    rw [lookup_of_mem hnodup hentry, Option.getD_some]

/-- Markings of identifiers that have one key agree on every counter. -/
theorem get_eq_of_key_eq
    {a b : Marking} (ha : ∀ n ∈ a.domain, Name.isValid n = true)
    (hb : ∀ n ∈ b.domain, Name.isValid n = true) (h : a.key = b.key) (n : Text) :
    a.get n = b.get n := by
  have hvalid : ∀ {m : Marking}, (∀ n ∈ m.domain, Name.isValid n = true) →
      ∀ e ∈ m.support, Name.isValid e.1 = true := by
    intro m hm e he
    exact hm e.1 (List.mem_map.mpr ⟨e, (List.mem_filter.mp he).1, rfl⟩)
  have hseparable : ∀ {m : Marking}, (∀ n ∈ m.domain, Name.isValid n = true) →
      ∀ t ∈ m.support.map entryText, t ≠ [] ∧ byte ',' ∉ t := by
    intro m hm t ht
    obtain ⟨e, he, rfl⟩ := List.mem_map.mp ht
    exact entryText_separable (hvalid hm e he)
  rw [key_eq, key_eq] at h
  have htexts := Text.eq_of_join_eq (hseparable ha) (hseparable hb) h
  have hsupport : a.support = b.support :=
    eq_of_map_entryText_eq (hvalid ha) (hvalid hb) htexts
  rw [get_eq_lookup_support, get_eq_lookup_support, hsupport]

end Population.Marking
