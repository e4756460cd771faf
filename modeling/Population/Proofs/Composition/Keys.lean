import Population.Composition.Basic
import Population.Proofs.Marking.Key
import Population.Proofs.Text.Sorting
import Population.Proofs.Text.Trimming

/-!
# Keys of expansions and of global transitions

Deduplication compares texts in which names stand between quotes.  An identifier
is quoted as it is, and neither it nor its quotes hold a blank or a semicolon.
So the key of an expansion determines the expansion, and the canonical text of a
global transition determines its environment step and the multiset of its moves:
nothing that differs is merged.
-/

namespace Population

open Text (byte)

/-! ## Quoted names -/

theorem escape_isPart {b : UInt8} (h : Name.isPart b = true) :
    Text.escape '"' (.scalar (Char.ofNat b.toNat)) = [b] :=
  Text.forall_byte
    (P := fun b => Name.isPart b = true → Text.escape '"' (.scalar (Char.ofNat b.toNat)) = [b])
    (by decide +kernel) b h

/-- An identifier is quoted without escapes. -/
theorem quote_of_isValid {name : Text} (h : Name.isValid name = true) :
    Text.quote name = [byte '"'] ++ name ++ [byte '"'] := by
  have hescape : ∀ t : Text, (∀ b ∈ t, Name.isPart b = true) →
      (t.map fun b => Glyph.scalar (Char.ofNat b.toNat)).flatMap (Text.escape '"') = t := by
    intro t ht
    induction t with
    | nil => rfl
    | cons b rest ih =>
        obtain ⟨hb, hrest⟩ := List.forall_mem_cons.mp ht
        rw [List.map_cons, List.flatMap_cons, escape_isPart hb, ih hrest]
        rfl
  rw [Text.quote, Text.glyphs_ascii (Text.bare_of_isValid h).ascii,
    hescape name fun b hb => Name.isPart_of_mem h hb]

/-- A name between quotes is not empty and holds no other sign. -/
theorem not_mem_quote
    {name : Text} (h : Name.isValid name = true) {b : UInt8} (hpart : Name.isPart b = false)
    (hquote : b ≠ byte '"') : Text.quote name ≠ [] ∧ b ∉ Text.quote name := by
  rw [quote_of_isValid h]
  simp [Marking.not_mem_of_isValid h hpart, hquote]

/-- What stands between the quotes. -/
def unquote (t : Text) : Text :=
  t.tail.dropLast

theorem unquote_quote {name : Text} (h : Name.isValid name = true) :
    unquote (Text.quote name) = name := by
  simp [unquote, quote_of_isValid h]

theorem map_unquote_quote {names : List Text} (h : ∀ a ∈ names, Name.isValid a = true) :
    (names.map Text.quote).map unquote = names := by
  have hcongr : names.map (unquote ∘ Text.quote) = names.map id :=
    List.map_congr_left fun a ha => unquote_quote (h a ha)
  rw [List.map_map, hcongr, List.map_id]

/-- The key of an expansion determines it. -/
theorem eq_of_expansionKey_eq
    {xs ys : List Text} (hxs : ∀ a ∈ xs, Name.isValid a = true)
    (hys : ∀ a ∈ ys, Name.isValid a = true) (h : expansionKey xs = expansionKey ys) :
    xs = ys := by
  have hpieces : ∀ {zs : List Text}, (∀ a ∈ zs, Name.isValid a = true) →
      ∀ t ∈ zs.map Text.quote, t ≠ [] ∧ byte ' ' ∉ t := by
    intro zs hzs t ht
    obtain ⟨a, ha, rfl⟩ := List.mem_map.mp ht
    exact not_mem_quote (hzs a ha) (by decide) (by decide)
  have hquotes := Text.eq_of_join_eq (hpieces hxs) (hpieces hys) h
  rw [← map_unquote_quote hxs, hquotes, map_unquote_quote hys]

namespace GlobalTransition

/-- All names in the transition are identifiers. -/
structure Named (g : GlobalTransition) : Prop where
  envBefore : Name.isValid g.envBefore = true
  sync : Name.isValid g.sync = true
  envAfter : Name.isValid g.envAfter = true
  moves : ∀ move ∈ g.moves, ∀ name ∈ [move.1, move.2.1, move.2.2], Name.isValid name = true

/-- The transitions take the same step of the environment and the same moves of
agents, as often as each other but maybe in another order. -/
structure Equivalent (g h : GlobalTransition) : Prop where
  envBefore : g.envBefore = h.envBefore
  sync : g.sync = h.sync
  envAfter : g.envAfter = h.envAfter
  moves : g.moves.Perm h.moves

instance (g h : GlobalTransition) : Decidable (g.Equivalent h) :=
  decidable_of_iff
    (g.envBefore = h.envBefore ∧ g.sync = h.sync ∧ g.envAfter = h.envAfter ∧
      g.moves.Perm h.moves)
    ⟨fun ⟨hbefore, hsync, hafter, hmoves⟩ => ⟨hbefore, hsync, hafter, hmoves⟩,
      fun ⟨hbefore, hsync, hafter, hmoves⟩ => ⟨hbefore, hsync, hafter, hmoves⟩⟩

/-! ## Moves -/

/-- The move that a text shows. -/
def moveOf (t : Text) : Text × Text × Text :=
  match (Text.split (byte ' ') t).map unquote with
  | [before, action, after] => (before, action, after)
  | _ => ([], [], [])

section Moves

variable {move : Text × Text × Text}
  (h : ∀ name ∈ [move.1, move.2.1, move.2.2], Name.isValid name = true)
include h

theorem moveOf_moveText : moveOf (moveText move) = move := by
  have hsplit : Text.split (byte ' ') (moveText move) =
      [move.1, move.2.1, move.2.2].map Text.quote := by
    refine Text.split_join (by simp) ?_
    intro piece (hpiece : piece ∈ [move.1, move.2.1, move.2.2].map Text.quote)
    obtain ⟨name, hname, rfl⟩ := List.mem_map.mp hpiece
    exact (not_mem_quote (h name hname) (by decide) (by decide)).2
  rw [moveOf, hsplit, map_unquote_quote h]

theorem not_mem_moveText : moveText move ≠ [] ∧ byte ';' ∉ moveText move := by
  have hpiece : ∀ piece ∈ [move.1, move.2.1, move.2.2].map Text.quote,
      piece ≠ [] ∧ byte ';' ∉ piece := by
    intro piece hpiece
    obtain ⟨name, hname, rfl⟩ := List.mem_map.mp hpiece
    exact not_mem_quote (h name hname) (by decide) (by decide)
  refine ⟨?_, Text.not_mem_join (by decide) fun piece hp => (hpiece piece hp).2⟩
  intro hnil
  exact (hpiece move.1.quote (by simp)).1 (List.append_eq_nil_iff.mp hnil).1

end Moves

theorem perm_of_map_moveText_perm
    {xs ys : List (Text × Text × Text)}
    (hxs : ∀ move ∈ xs, ∀ name ∈ [move.1, move.2.1, move.2.2], Name.isValid name = true)
    (hys : ∀ move ∈ ys, ∀ name ∈ [move.1, move.2.1, move.2.2], Name.isValid name = true)
    (h : (xs.map moveText).Perm (ys.map moveText)) : xs.Perm ys := by
  have hback : ∀ {zs : List (Text × Text × Text)},
      (∀ move ∈ zs, ∀ name ∈ [move.1, move.2.1, move.2.2], Name.isValid name = true) →
      (zs.map moveText).map moveOf = zs := by
    intro zs hzs
    have hcongr : zs.map (moveOf ∘ moveText) = zs.map id :=
      List.map_congr_left fun move hmove => moveOf_moveText (hzs move hmove)
    rw [List.map_map, hcongr, List.map_id]
  have hmoves := h.map moveOf
  rwa [hback hxs, hback hys] at hmoves

/-! ## Canonical texts -/

variable {g h : GlobalTransition}

theorem canonical_eq (g : GlobalTransition) :
    g.canonical = g.envBefore.quote ++ byte ' ' :: (g.sync.quote ++ byte ' ' ::
      (g.envAfter.quote ++ byte ' ' :: Text.join ";" (Text.sort (g.moves.map moveText)))) := by
  simp only [canonical, Text.join, List.flatMap_cons, List.flatMap_nil, List.append_nil,
    List.append_assoc]
  rfl

theorem sort_moves_eq
    (hg : g.Named) (hh : h.Named)
    (heq : Text.join ";" (Text.sort (g.moves.map moveText)) =
      Text.join ";" (Text.sort (h.moves.map moveText))) :
    Text.sort (g.moves.map moveText) = Text.sort (h.moves.map moveText) := by
  have hpieces : ∀ {f : GlobalTransition}, f.Named →
      ∀ t ∈ Text.sort (f.moves.map moveText), t ≠ [] ∧ byte ';' ∉ t := by
    intro f hf t ht
    obtain ⟨move, hmove, rfl⟩ := List.mem_map.mp ((Text.sort_perm _).mem_iff.mp ht)
    exact not_mem_moveText (hf.moves move hmove)
  exact Text.eq_of_join_eq (hpieces hg) (hpieces hh) heq

/-- Canonical texts agree for equivalent transitions and for no others. -/
theorem canonical_eq_iff (hg : g.Named) (hh : h.Named) :
    g.canonical = h.canonical ↔ g.Equivalent h := by
  have hblank : ∀ {name : Text}, Name.isValid name = true → byte ' ' ∉ name.quote :=
    fun hname => (not_mem_quote hname (by decide) (by decide)).2
  have hname : ∀ {a b : Text}, Name.isValid a = true → Name.isValid b = true →
      a.quote = b.quote → a = b := by
    intro a b ha hb hquote
    rw [← unquote_quote ha, hquote, unquote_quote hb]
  rw [canonical_eq, canonical_eq]
  constructor
  · intro heq
    obtain ⟨hbefore, heq⟩ := Text.append_cons_inj (hblank hg.envBefore) (hblank hh.envBefore) heq
    obtain ⟨hsync, heq⟩ := Text.append_cons_inj (hblank hg.sync) (hblank hh.sync) heq
    obtain ⟨hafter, heq⟩ := Text.append_cons_inj (hblank hg.envAfter) (hblank hh.envAfter) heq
    have hperm := Text.sort_eq_sort_iff.mp (sort_moves_eq hg hh heq)
    exact ⟨hname hg.envBefore hh.envBefore hbefore, hname hg.sync hh.sync hsync,
      hname hg.envAfter hh.envAfter hafter, perm_of_map_moveText_perm hg.moves hh.moves hperm⟩
  · rintro ⟨hbefore, hsync, hafter, hmoves⟩
    rw [hbefore, hsync, hafter, Text.sort_eq_sort_iff.mpr (hmoves.map moveText)]

end GlobalTransition

end Population
