import Population.Text.Decimal
import Population.Yaml.Source

/-!
# Positions in a document

A cursor stands between the characters that have been read and those that remain, and knows the
line and the column. Whoever looks ahead says how far; where the characters end because of a fault,
looking further than they reach is that fault.

Why a text is no document is told by a fault. It names a line where one is known: that of the
construct in which something is wrong, or else that of the wrong place itself. Lines are counted
from zero, and the first line is never named.
-/

namespace Population.Yaml

/-- Why a text is no document. -/
inductive Fault where
  | noDocument
  /-- The bytes do not encode characters that may stand in a document. -/
  | unreadable (why : Text)
  /-- A token cannot be read; `context` is where it starts. -/
  | badToken (context line : Nat) (why : Text)
  /-- A token is out of place; `context` is where the enclosing node starts. -/
  | badPlace (context line : Nat) (why : Text)
  | unknownAnchor (name : Text)
  deriving DecidableEq

/-- The line that a fault is shown with, and nothing for the first line; lines that are shown are
counted from `base`. -/
def shownLine (base context line : Nat) : Text :=
  let shown := if context ≠ 0 then context else line
  if shown = 0 then [] else Text.cat ["line ", Text.ofNat (shown + base), ": "]

def Fault.message : Fault → Text
  | noDocument => "EOF"
  | unreadable why => "yaml: " ++ why
  | badToken context line why => Text.cat ["yaml: ", shownLine 1 context line, why]
  | badPlace context line why => Text.cat ["yaml: ", shownLine 0 context line, why]
  | unknownAnchor name => Text.cat ["yaml: unknown anchor '", name, "' referenced"]

/-- A place in a document: how many characters stand before it, its line and its column. -/
structure Mark where
  index : Nat := 0
  line : Nat := 0
  column : Nat := 0
  deriving DecidableEq

def isBlank (c : Char) : Bool :=
  c == ' ' || c == '\t'

def isBreak (c : Char) : Bool :=
  c == '\r' || c == '\n' || c == '\u0085' || c == '\u2028' || c == '\u2029'

def isSpace (c : Char) : Bool :=
  isBlank c || isBreak c

/-- A letter or digit of ASCII, a dash or an underscore. -/
def isWordChar (c : Char) : Bool :=
  c.isAlphanum || c == '-' || c == '_'

/-- A character that means something between brackets. -/
def isFlowMark (c : Char) : Bool :=
  c == ',' || c == '?' || c == '[' || c == ']' || c == '\x7b' || c == '\x7d'

/-- Whether a line, or the document, is over before these characters. -/
def endsLine (cs : List Char) : Bool :=
  cs.head?.all isBreak

def endsWord (cs : List Char) : Bool :=
  cs.head?.all isSpace

def textOf (cs : List Char) : Text :=
  cs.flatMap String.utf8EncodeChar

/-- A place in a document with the characters behind it. -/
structure Cursor where
  rest : List Char
  /-- What is wrong behind the remaining characters. -/
  fault : Option Text
  mark : Mark := {}
  /-- The line ends passed since the last character that is not blank. -/
  breaks : Nat := 0
  /-- A bound on the number of characters, one more than there are. -/
  bound : Nat
  deriving DecidableEq

namespace Cursor

def start (s : Source) : Cursor where
  rest := s.characters
  fault := s.fault
  bound := s.characters.length + 1

/-- Asks for the next `n` characters, of which those behind the end of the document are free. -/
def need (c : Cursor) (n : Nat) : Except Fault Unit :=
  match c.fault with
  | none => .ok ()
  | some why => if (c.rest.drop (n - 1)).isEmpty then .error (.unreadable why) else .ok ()

def head? (c : Cursor) : Option Char :=
  c.rest.head?

def isAt (c : Cursor) (ch : Char) : Bool :=
  c.head? == some ch

/-- Moves a cursor past a character; `returned` tells that the one before it is a carriage return,
to which a line feed adds no line end. -/
def passOne : Cursor × Bool → Char → Cursor × Bool
  | (c, returned), ch =>
    let m := c.mark
    if ch == '\n' && returned then ({ c with mark := { m with index := m.index + 1 } }, false)
    else if isBreak ch then
      ({ c with mark := ⟨m.index + 1, m.line + 1, 0⟩, breaks := c.breaks + 1 }, ch == '\r')
    else
      ({ c with
        mark := { m with index := m.index + 1, column := m.column + 1 }
        breaks := if isBlank ch then c.breaks else 0 }, false)

/-- Moves past the next `n` characters. -/
def past (c : Cursor) (n : Nat) : Cursor :=
  { ((c.rest.take n).foldl passOne (c, false)).1 with rest := c.rest.drop n }

/-- The characters up to the first one without a property, and the place behind them. -/
def takeWhile (c : Cursor) (p : Char → Bool) : List Char × Cursor :=
  let run := c.rest.takeWhile p
  (run, c.past run.length)

def skipWhile (c : Cursor) (p : Char → Bool) : Cursor :=
  (c.takeWhile p).2

def breakLength (c : Cursor) : Nat :=
  match c.rest with
  | '\r' :: '\n' :: _ => 2
  | ch :: _ => if isBreak ch then 1 else 0
  | [] => 0

/-- A line end as it stands in a value: only the separators of lines and paragraphs stay. -/
def breakValue (ch : Char) : Char :=
  if ch == '\u2028' || ch == '\u2029' then ch else '\n'

def skipBreak (c : Cursor) : Cursor :=
  c.past c.breakLength

def refuse {α : Type} (c : Cursor) (start : Mark) (why : Text) : Except Fault α :=
  .error (.badToken start.line c.mark.line why)

/-- Whether a line starts here with a character three times and a gap. -/
def isAtMarker (c : Cursor) (mark : Char) : Bool :=
  c.mark.column == 0 && c.rest.take 3 == [mark, mark, mark] && endsWord (c.rest.drop 3)

def isAtDocumentMarker (c : Cursor) : Bool :=
  c.isAtMarker '-' || c.isAtMarker '.'

def commentReach : Nat := 512

/-- Moves past a comment that follows a token on its line. -/
def skipLineComment (c : Cursor) : Except Fault Cursor := do
  if 0 < c.breaks then return c
  let gap := (c.rest.takeWhile isBlank).length
  if commentReach ≤ gap then return c
  let c' := c.past gap
  if !c'.isAt '#' then return c
  let c' := c'.skipWhile (!isBreak ·)
  c'.need 1
  return c'

/-- Moves past a comment and the comments on the lines below it, whatever blanks stand before
them. -/
def skipComments : (fuel : Nat) → Cursor → Except Fault Cursor
  | 0, c => .ok c
  | fuel + 1, c => do
    let c := c.skipWhile (!isBreak ·)
    c.need 1
    let gap := (c.rest.takeWhile fun ch => isBlank ch || ch == '\r' || ch == '\n').length
    let c' := c.past gap
    if gap < commentReach && c'.isAt '#' then skipComments fuel c' else return c

end Cursor

end Population.Yaml
