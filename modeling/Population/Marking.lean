import Population.Text.Decimal

/-!
# Markings

A marking gives each counter a 64-bit value; a counter it does not mention reads as zero. The
entries are kept in strict byte order of their names, so a name has at most one entry. Two markings
are the same configuration when they agree on every counter (`Marking.same`), and the key of a
marking is a text that leaves the zero counters out.

Counters are listed so that `l2` comes before `l10`: names are cut into maximal runs of digits and
of other bytes, runs of digits compare as numbers, and all other runs compare in byte order.
-/

namespace Population.Text

/-- The maximal runs of digits and of other bytes. -/
def chunks (t : Text) : List Text :=
  t.foldr (fun b pieces =>
    match pieces with
    | (c :: piece) :: others =>
      if isDigit b == isDigit c then (b :: c :: piece) :: others
      else [b] :: (c :: piece) :: others
    | _ => [b] :: pieces) []

/-- Two runs compare as numbers when both are, and in byte order otherwise. -/
def compareChunk (a b : Text) : Ordering :=
  match toInt64? a, toInt64? b with
  | some m, some n => compare m.toInt n.toInt
  | _, _ => compare a b

/-- The first run that differs decides; a name that ends before it comes first. -/
def compareChunks : List Text → List Text → Ordering
  | [], [] => .eq
  | [], _ :: _ => .lt
  | _ :: _, [] => .gt
  | a :: as, b :: bs =>
    match compareChunk a b with
    | .eq => compareChunks as bs
    | o => o

def precedesNaturally (a b : Text) : Bool :=
  compareChunks (chunks a) (chunks b) == .lt

def sortNaturally (names : List Text) : List Text :=
  sortBy precedesNaturally names

end Population.Text

namespace Population

/-- Counter values by name, in strict byte order of the names. -/
structure Marking where
  entries : List (Text × Int64)
  ordered : entries.Pairwise fun a b => compare a.1 b.1 = .lt
  deriving DecidableEq

namespace Marking

def empty : Marking := ⟨[], List.Pairwise.nil⟩

instance : EmptyCollection Marking := ⟨empty⟩

/-- The value of a counter, zero when the marking does not mention it. -/
def get (m : Marking) (name : Text) : Int64 :=
  (m.entries.lookup name).getD 0

/-- Writes a value into ordered entries. -/
def setEntry (name : Text) (value : Int64) : List (Text × Int64) → List (Text × Int64)
  | [] => [(name, value)]
  | (k, v) :: rest =>
    match compare name k with
    | .lt => (name, value) :: (k, v) :: rest
    | .eq => (name, value) :: rest
    | .gt => (k, v) :: setEntry name value rest

theorem mem_setEntry {name : Text} {value : Int64} {es : List (Text × Int64)} {e : Text × Int64}
    (h : e ∈ setEntry name value es) : e = (name, value) ∨ e ∈ es := by
  induction es with
  | nil => simpa [setEntry] using h
  | cons kv rest ih =>
    obtain ⟨k, v⟩ := kv
    cases hc : compare name k with
    | lt => simpa [setEntry, hc] using h
    | eq =>
      simp only [setEntry, hc, List.mem_cons] at h
      rcases h with h | h
      · exact .inl h
      · exact .inr (List.mem_cons_of_mem _ h)
    | gt =>
      simp only [setEntry, hc, List.mem_cons] at h
      rcases h with h | h
      · exact .inr (by simp [h])
      · rcases ih h with h | h
        · exact .inl h
        · exact .inr (List.mem_cons_of_mem _ h)

theorem setEntry_ordered {name : Text} {value : Int64} {es : List (Text × Int64)}
    (h : es.Pairwise fun a b => compare a.1 b.1 = .lt) :
    (setEntry name value es).Pairwise fun a b => compare a.1 b.1 = .lt := by
  induction es with
  | nil => simp [setEntry]
  | cons kv rest ih =>
    obtain ⟨k, v⟩ := kv
    obtain ⟨hk, hrest⟩ := List.pairwise_cons.1 h
    cases hc : compare name k with
    | lt =>
      simp only [setEntry, hc]
      refine List.pairwise_cons.2 ⟨?_, h⟩
      intro e he
      rcases List.mem_cons.1 he with rfl | he
      · exact hc
      · exact Std.TransCmp.lt_trans hc (hk e he)
    | eq =>
      have hn : name = k := Std.LawfulEqCmp.eq_of_compare hc
      simp only [setEntry, hc]
      exact List.pairwise_cons.2 ⟨fun e he => hn ▸ hk e he, hrest⟩
    | gt =>
      simp only [setEntry, hc]
      refine List.pairwise_cons.2 ⟨?_, ih hrest⟩
      intro e he
      rcases mem_setEntry he with rfl | he
      · exact Std.OrientedCmp.gt_iff_lt.1 hc
      · exact hk e he

def set (m : Marking) (name : Text) (value : Int64) : Marking :=
  ⟨setEntry name value m.entries, setEntry_ordered m.ordered⟩

/-- Adds to a counter, modulo 2^64. -/
def add (m : Marking) (name : Text) (delta : Int64) : Marking :=
  m.set name (m.get name + delta)

/-- The marking with the given entries; of two entries for one name the later counts. -/
def ofList (entries : List (Text × Int64)) : Marking :=
  entries.foldl (fun m (name, value) => m.set name value) empty

def nonNegative (m : Marking) : Bool :=
  m.entries.all fun (_, v) => 0 ≤ v

/-- Whether two markings agree on every counter. -/
def same (a b : Marking) : Bool :=
  a.entries.all (fun (k, v) => b.get k == v) && b.entries.all (fun (k, v) => a.get k == v)

/-- An entry as `name:value`. -/
def entryText (e : Text × Int64) : Text :=
  e.1 ++ ":" ++ Text.ofInt64 e.2

/-- The entries that are not zero, in byte order, joined by commas. -/
def key (m : Marking) : Text :=
  Text.join "," ((m.entries.filter fun (_, v) => v != 0).map entryText)

/-- The counters that the marking mentions, in natural order. -/
def names (m : Marking) : List Text :=
  Text.sortNaturally (m.entries.map (·.1))

/-- The marking as `{a:1, b:0}`, in natural order. -/
def text (m : Marking) : Text :=
  Text.cat ["\x7b", Text.join ", " (m.names.map fun n => entryText (n, m.get n)), "\x7d"]

theorem lookup_setEntry (name n : Text) (value : Int64) (es : List (Text × Int64))
    (h : es.Pairwise fun a b => compare a.1 b.1 = .lt) :
    (setEntry name value es).lookup n = if n = name then some value else es.lookup n := by
  have hit (k : Text) (v : Int64) (l : List (Text × Int64)) :
      List.lookup n ((k, v) :: l) = if n = k then some v else l.lookup n := by
    by_cases hk : n = k
    · simp [hk]
    · simp [List.lookup_cons, beq_eq_false_iff_ne.2 hk, hk]
  induction es with
  | nil => simp [setEntry, hit]
  | cons kv rest ih =>
    obtain ⟨k, v⟩ := kv
    cases hc : compare name k with
    | lt => simp [setEntry, hc, hit]
    | eq =>
      have hk : name = k := Std.LawfulEqCmp.eq_of_compare hc
      by_cases hn : n = name <;> simp [setEntry, hit, hn, ← hk]
    | gt =>
      have hne : k ≠ name := by
        rintro rfl
        simp at hc
      simp only [setEntry, hc, hit, ih (List.pairwise_cons.1 h).2]
      by_cases hnk : n = k
      · simp [hnk, hne]
      · simp [hnk]

/-- A counter reads as what was last written to it. -/
@[simp]
theorem get_set (m : Marking) (name n : Text) (value : Int64) :
    (m.set name value).get n = if n = name then value else m.get n := by
  simp only [get, set, lookup_setEntry name n value m.entries m.ordered]
  split <;> rfl

end Marking

end Population
