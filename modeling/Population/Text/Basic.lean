/-!
# Texts

A text is a list of bytes. Names, descriptions, counter systems and messages are texts, and nothing
requires them to be valid UTF-8. This module holds the constructions and cuts that the readers and
printers share; how bytes group into characters is in `Population.Text.Glyph`.

Long texts are ordinary input, so every function here that walks along a text does so by a fold or
by a tail call.
-/

namespace Population

/-- A text: any sequence of bytes. -/
abbrev Text := List UInt8

namespace Text

/-- The UTF-8 encoding of a string. -/
def ofString (s : String) : Text :=
  s.toList.flatMap String.utf8EncodeChar

instance : Coe String Text := ⟨ofString⟩

def byte (c : Char) : UInt8 :=
  UInt8.ofNat c.toNat

def cat (parts : List Text) : Text :=
  parts.flatten

/-- The texts with `sep` between neighbours. -/
def join (sep : Text) : List Text → Text
  | [] => []
  | t :: rest => t ++ rest.flatMap (sep ++ ·)

def times (n : Nat) (t : Text) : Text :=
  (List.replicate n t).flatten

/-- The pieces of `t` between the occurrences of the byte `sep`; there is always at least one. -/
def split (sep : UInt8) (t : Text) : List Text :=
  t.foldr (fun b pieces =>
    if b = sep then [] :: pieces
    else match pieces with
      | [] => [[b]]
      | piece :: others => (b :: piece) :: others) [[]]

/-- What stands before and after the first occurrence of the byte `sep`. -/
def cut (sep : UInt8) (t : Text) : Option (Text × Text) :=
  match t.dropWhile (· != sep) with
  | [] => none
  | _ :: after => some (t.takeWhile (· != sep), after)

/-- The number of bytes before the first occurrence of the text `sep`, counted on from `skipped`. -/
def indexFrom (sep : Text) (skipped : Nat) : Text → Option Nat
  | [] => if sep = [] then some skipped else none
  | b :: rest =>
    if sep.isPrefixOf (b :: rest) then some skipped else indexFrom sep (skipped + 1) rest

def cutAt (t sep : Text) : Option (Text × Text) :=
  (indexFrom sep 0 t).map fun i => (t.take i, t.drop (i + sep.length))

def hasPart (t part : Text) : Bool :=
  (indexFrom part 0 t).isSome

/-- What follows the text `head`, when `t` starts with it. -/
def after? (t head : Text) : Option Text :=
  if head.isPrefixOf t then some (t.drop head.length) else none

/-- Splits at a two-byte separator; `piece` is the current piece and `pieces` the finished ones,
both in reverse. -/
def splitPairFrom (first second : UInt8) (piece : Text) (pieces : List Text) : Text → List Text
  | [] => (piece.reverse :: pieces).reverse
  | [b] => ((b :: piece).reverse :: pieces).reverse
  | b :: c :: rest =>
    if b = first ∧ c = second then
      splitPairFrom first second [] (piece.reverse :: pieces) rest
    else splitPairFrom first second (b :: piece) pieces (c :: rest)

/-- The pieces of `t` between the occurrences of a two-byte separator, taken from the left. -/
def splitPair (first second : UInt8) (t : Text) : List Text :=
  splitPairFrom first second [] [] t

/-- Puts `a` into a sorted list, behind the elements that must precede it. -/
def insertBy {α : Type} (precedes : α → α → Bool) (a : α) : List α → List α
  | [] => [a]
  | b :: rest => if precedes b a then b :: insertBy precedes a rest else a :: b :: rest

/-- Sorts by a strict order; elements that the order does not separate keep their places. -/
def sortBy {α : Type} (precedes : α → α → Bool) (xs : List α) : List α :=
  xs.foldr (insertBy precedes) []

/-- Byte order, in which lists of names are sorted. -/
def precedes (a b : Text) : Bool :=
  compare a b == .lt

def sort (names : List Text) : List Text :=
  sortBy precedes names

/-- The names as a bracketed list, `[a b]`. -/
def bracketed (names : List Text) : Text :=
  cat ["[", join " " names, "]"]

/-- The lower-case form of an ASCII letter; every other byte stays. -/
def lowerByte (b : UInt8) : UInt8 :=
  if byte 'A' ≤ b ∧ b ≤ byte 'Z' then b + 32 else b

def lower (t : Text) : Text :=
  t.map lowerByte

/-- Equality of texts up to the case of ASCII letters. -/
def sameIgnoringCase (a b : Text) : Bool :=
  lower a == lower b

@[simp]
theorem cat_nil : cat [] = [] := rfl

@[simp]
theorem cat_cons (t : Text) (ts : List Text) : cat (t :: ts) = t ++ cat ts := rfl

theorem split_nil (sep : UInt8) : split sep [] = [[]] := rfl

theorem split_ne_nil (sep : UInt8) (t : Text) : split sep t ≠ [] := by
  cases t with
  | nil => simp [split]
  | cons b rest =>
    simp only [split, List.foldr_cons]
    split
    · simp
    · split <;> simp

/-- Splitting at the first byte: it ends a piece, or it is the first byte of one. -/
theorem split_cons (sep b : UInt8) (t : Text) :
    ∃ piece pieces, split sep t = piece :: pieces ∧
      split sep (b :: t) =
        if b = sep then [] :: piece :: pieces else (b :: piece) :: pieces := by
  cases h : split sep t with
  | nil => exact absurd h (split_ne_nil sep t)
  | cons piece pieces =>
    refine ⟨piece, pieces, rfl, ?_⟩
    have h' : split sep (b :: t) = if b = sep then [] :: split sep t
        else match split sep t with
          | [] => [[b]]
          | piece :: others => (b :: piece) :: others := rfl
    rw [h', h]

/-- Splitting loses nothing but the separators. -/
theorem join_split (sep : UInt8) (t : Text) : join [sep] (split sep t) = t := by
  induction t with
  | nil => rfl
  | cons b rest ih =>
    obtain ⟨piece, pieces, hs, hc⟩ := split_cons sep b rest
    rw [hs] at ih
    rw [hc]
    by_cases h : b = sep
    · subst h
      simpa [join] using ih
    · simpa [join, h] using ih

theorem insertBy_perm {α : Type} (precedes : α → α → Bool) (a : α) (xs : List α) :
    (insertBy precedes a xs).Perm (a :: xs) := by
  induction xs with
  | nil => exact List.Perm.refl _
  | cons b rest ih =>
    by_cases h : precedes b a
    · simp only [insertBy, h, if_true]
      exact (ih.cons b).trans (List.Perm.swap a b rest)
    · simp [insertBy, h]

theorem sortBy_perm {α : Type} (precedes : α → α → Bool) (xs : List α) :
    (sortBy precedes xs).Perm xs := by
  induction xs with
  | nil => exact List.Perm.refl _
  | cons a rest ih =>
    exact (insertBy_perm precedes a _).trans (ih.cons a)

end Text

end Population
