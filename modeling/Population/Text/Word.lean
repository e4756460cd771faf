import Population.Text.Glyph

/-!
# Words and names

White space comes in two extents: the blanks of Unicode, at which lists are split and lines are
trimmed, and the narrow set of five ASCII characters that may surround a colon. States, actions,
counters and transitions are named by ASCII identifiers.
-/

namespace Population.Text

/-- The white space of Unicode. -/
def isBlank (c : Char) : Bool :=
  let n := c.toNat
  (0x09 ≤ n && n ≤ 0x0D) || n == 0x20 || n == 0x85 || n == 0xA0 || n == 0x1680 ||
    (0x2000 ≤ n && n ≤ 0x200A) || n == 0x2028 || n == 0x2029 || n == 0x202F || n == 0x205F ||
    n == 0x3000

/-- Whether a glyph is white space; a stray byte never is. -/
def isBlankGlyph : Glyph → Bool
  | .scalar c => isBlank c
  | .stray _ => false

/-- Tabulator, line feed, form feed, carriage return and space. -/
def isNarrowBlank (b : UInt8) : Bool :=
  b == 0x09 || b == 0x0A || b == 0x0C || b == 0x0D || b == 0x20

def trim (t : Text) : Text :=
  ofGlyphs (((glyphs t).dropWhile isBlankGlyph).reverse.dropWhile isBlankGlyph).reverse

def trimNarrowLeft (t : Text) : Text :=
  t.dropWhile isNarrowBlank

def trimNarrowRight (t : Text) : Text :=
  (t.reverse.dropWhile isNarrowBlank).reverse

/-- The maximal runs of glyphs that hold no separator. -/
def runs (isSep : Glyph → Bool) (t : Text) : List Text :=
  ((glyphs t).foldr (fun g (run, done) =>
      if isSep g then ([], if run.isEmpty then done else run :: done)
      else (g.bytes ++ run, done)) (([], []) : Text × List Text)
    |> fun (run, done) => if run.isEmpty then done else run :: done)

/-- The words of a text: its maximal runs without white space. -/
def words (t : Text) : List Text :=
  runs isBlankGlyph t

/-- The items of a list written with commas or white space between them. -/
def items (t : Text) : List Text :=
  runs (fun g => isBlankGlyph g || g == .scalar ',') t

end Population.Text

namespace Population.Name

open Text (byte)

def isStart (b : UInt8) : Bool :=
  (byte 'A' ≤ b && b ≤ byte 'Z') || (byte 'a' ≤ b && b ≤ byte 'z') || b == byte '_'

def isPart (b : UInt8) : Bool :=
  isStart b || (byte '0' ≤ b && b ≤ byte '9')

/-- Whether a text is an identifier: a letter or underscore, then letters, digits and
underscores. -/
def isValid : Text → Bool
  | [] => false
  | b :: rest => isStart b && rest.all isPart

theorem ne_nil_of_isValid {t : Text} (h : isValid t = true) : t ≠ [] := by
  cases t with
  | nil => simp [isValid] at h
  | cons b rest => simp

theorem isPart_of_mem {t : Text} (h : isValid t = true) {b : UInt8} (hb : b ∈ t) :
    isPart b = true := by
  cases t with
  | nil => simp at hb
  | cons a rest =>
    simp only [isValid, Bool.and_eq_true, List.all_eq_true] at h
    rcases List.mem_cons.1 hb with rfl | hb
    · simp [isPart, h.1]
    · exact h.2 b hb

end Population.Name
