import Population.Job.Memory

/-!
# Tables of jobs

A table is searched for the first entry of a job.  What is put in place of an
entry is found in its stead, and a job that was not there before is found where
it was added; the entries of the other jobs stay as they are.
-/

namespace Population.JobTable

variable {t : JobTable} {id : Text} {e e' : JobEntry}

theorem id_of_find? (h : t.find? id = some e) : e.job.id = id := by
  simpa using List.find?_some h

/-- An entry that replaces the one of its job is found. -/
theorem find?_replace (h : t.find? id = some e) (hid : e'.job.id = id) :
    (t.replace e').find? id = some e' := by
  subst hid
  induction t with
  | nil => simp [find?] at h
  | cons first rest ih =>
      simp only [find?, replace, List.map_cons, List.find?_cons] at h ih ⊢
      by_cases hfirst : first.job.id = e'.job.id
      · simp [hfirst]
      · have hne : (first.job.id == e'.job.id) = false := by simpa using hfirst
        simp only [hne, Bool.false_eq_true, if_false] at h ⊢
        exact ih h

theorem find?_append_of_fresh (h : t.find? id = none) (hid : e.job.id = id) :
    find? (t ++ [e]) id = some e := by
  simp only [find?] at h ⊢
  rw [List.find?_append, h, Option.none_or]
  simp [hid]

theorem open?_eq_ok (h : t.find? id = some e) (hopen : e.job.status.isTerminal = false) :
    t.open? id = .ok e := by
  simp [open?, h, hopen]

theorem of_open?_eq_ok (h : t.open? id = .ok e) :
    t.find? id = some e ∧ e.job.status.isTerminal = false := by
  unfold open? at h
  split at h
  · cases h
  · next e' hfind =>
    split at h
    · cases h
    · next hopen =>
      cases h
      exact ⟨hfind, by simpa using hopen⟩

/-! ## Other jobs -/

theorem find?_cons (t : JobTable) (e : JobEntry) (id : Text) :
    find? (e :: t) id = if e.job.id = id then some e else t.find? id := by
  by_cases h : e.job.id = id
  · simp [find?, h]
  · have hne : (e.job.id == id) = false := by simpa using h
    simp only [find?, List.find?_cons, hne, h, if_false]

theorem mem_of_find? (h : t.find? id = some e) : e ∈ t :=
  List.mem_of_find?_eq_some h

theorem find?_eq_none_iff : t.find? id = none ↔ id ∉ t.map (·.job.id) := by
  simp only [find?, List.find?_eq_none, beq_iff_eq, List.mem_map, not_exists, not_and]

theorem ids_replace (t : JobTable) (e : JobEntry) :
    (t.replace e).map (·.job.id) = t.map (·.job.id) := by
  rw [replace, List.map_map]
  refine List.map_congr_left fun x _ => ?_
  by_cases hx : x.job.id = e.job.id <;> simp [hx]

theorem mem_replace {x : JobEntry} (h : x ∈ t.replace e) :
    x = e ∨ x ∈ t ∧ x.job.id ≠ e.job.id := by
  obtain ⟨y, hy, rfl⟩ := List.mem_map.mp h
  by_cases hid : y.job.id = e.job.id
  · exact .inl (by simp [hid])
  · exact .inr (by simp [hid, hy])

theorem find?_replace_of_ne (hne : id ≠ e.job.id) : (t.replace e).find? id = t.find? id := by
  induction t with
  | nil => rfl
  | cons first rest ih =>
      have hreplace : replace (first :: rest) e =
          (if first.job.id == e.job.id then e else first) :: replace rest e := rfl
      rw [hreplace, find?_cons, find?_cons, ih]
      by_cases hfirst : first.job.id = e.job.id
      · simp [hfirst, hne.symm]
      · simp [hfirst]

theorem find?_append_of_ne (hne : id ≠ e.job.id) : find? (t ++ [e]) id = t.find? id := by
  simp [find?, List.find?_append, hne.symm]

theorem find?_replace_eq (h : t.find? id = some e) (hid : e'.job.id = id) (other : Text) :
    (t.replace e').find? other = if other = id then some e' else t.find? other := by
  split
  next heq =>
    subst heq
    exact find?_replace h hid
  next hne => exact find?_replace_of_ne (hid ▸ hne)

theorem find?_append_eq (h : t.find? id = none) (hid : e.job.id = id) (other : Text) :
    find? (t ++ [e]) other = if other = id then some e else t.find? other := by
  split
  next heq =>
    subst heq
    exact find?_append_of_fresh h hid
  next hne => exact find?_append_of_ne (hid ▸ hne)

theorem find?_filter (hdistinct : (t.map (·.job.id)).Nodup) (p : JobEntry → Bool) (id : Text) :
    find? (t.filter p) id = (t.find? id).filter p := by
  induction t with
  | nil => rfl
  | cons first rest ih =>
      simp only [List.map_cons, List.nodup_cons] at hdistinct
      have ih := ih hdistinct.2
      rw [List.filter_cons, find?_cons]
      by_cases hid : first.job.id = id
      · subst hid
        rw [find?_eq_none_iff.mpr hdistinct.1] at ih
        by_cases hp : p first = true
        · simp [hp, find?_cons, Option.filter]
        · simp [hp, ih, Option.filter]
      · by_cases hp : p first = true
        · simp [hp, find?_cons, hid, ih]
        · simp [hp, hid, ih]

end Population.JobTable
