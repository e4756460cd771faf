import Population.Yaml.Cursor

/-!
# Scalars of a document

A scalar is written plainly, between quotes, or as a block of lines below an indicator. Plain and
quoted scalars may go on over several lines: a single line end between two words stands for a space,
and further ones stand for themselves. In a block the lines keep their ends, or are folded in the
same way where neither of two lines starts with a blank.
-/

namespace Population.Yaml

/-- Blanks and line ends between two words. -/
structure Gap where
  broken : Bool := false
  /-- The first line end, unless it was escaped. -/
  first : Option Char := none
  /-- The further line ends, the last one first. -/
  more : List Char := []
  /-- The blanks before the first line end, the last one first. -/
  blanks : List Char := []
  deriving DecidableEq

namespace Gap

/-- Adds a blank; behind a line end blanks do not count. -/
def addBlank (g : Gap) (ch : Char) : Gap :=
  if g.broken then g else { g with blanks := ch :: g.blanks }

def addBreak (g : Gap) (ch : Char) : Gap :=
  if g.broken then { g with more := ch :: g.more } else { g with broken := true, first := some ch }

def value (g : Gap) : List Char :=
  if !g.broken then g.blanks.reverse
  else match g.first with
    | none => g.more.reverse
    | some ch =>
      if ch != '\n' then ch :: g.more.reverse
      else if g.more.isEmpty then [' '] else g.more.reverse

end Gap

/-- Reads a run of blanks and line ends. A tabulator at the start of a line, before the column
`least`, is refused for the scalar that starts at a mark. -/
def readGap (least : Nat) (start : Mark) (g : Gap) (c : Cursor) :
    (run : List Char) → Except Fault (Gap × Cursor)
  | [] => .ok (g, c)
  | '\r' :: '\n' :: run => readGap least start (g.addBreak '\n') (c.past 2) run
  | ch :: run =>
    if isBreak ch then readGap least start (g.addBreak (Cursor.breakValue ch)) (c.past 1) run
    else if g.broken && c.mark.column < least && ch == '\t' then
      c.refuse start "found a tab character that violates indentation"
    else readGap least start (g.addBlank ch) (c.past 1) run

/-! ### Plain scalars -/

/-- The next word of a plain scalar behind the characters in `done`, in reverse. A colon before a
gap ends it, and so do the marks of brackets between brackets. -/
def plainWord (flow : Bool) (done : List Char) : List Char → List Char
  | [] => done
  | ch :: rest =>
    if isSpace ch || (ch == ':' && endsWord rest) || (flow && isFlowMark ch) then done
    else plainWord flow (ch :: done) rest

structure ScalarText where
  value : Text
  /-- Whether a line ended behind the scalar. -/
  broken : Bool := false
  cursor : Cursor

/-- Reads the words of a plain scalar behind those in `done`, which are in reverse. Outside brackets
a line that starts before the column `least` ends it. -/
def readWords (flow : Bool) (least : Nat) (start : Mark) :
    (fuel : Nat) → (done : List Char) → Gap → Cursor → Except Fault ScalarText
  | 0, done, g, c => .ok ⟨textOf done.reverse, g.broken, c⟩
  | fuel + 1, done, g, c => do
    c.need 4
    if c.isAtDocumentMarker || c.isAt '#' then return ⟨textOf done.reverse, g.broken, c⟩
    let word := plainWord flow [] c.rest
    if word.isEmpty then return ⟨textOf done.reverse, g.broken, c⟩
    let done := word ++ g.value.reverse ++ done
    let c := c.past word.length
    c.need 2
    let run := c.rest.takeWhile isSpace
    if run.isEmpty then return ⟨textOf done.reverse, false, c⟩
    let (g, c) ← readGap least start {} c run
    c.need 1
    if !flow && c.mark.column < least then return ⟨textOf done.reverse, g.broken, c⟩
    readWords flow least start fuel done g c

def readPlain (flow : Bool) (least : Nat) (c : Cursor) : Except Fault ScalarText :=
  readWords flow least c.mark c.bound [] {} c

/-! ### Quoted scalars -/

/-- What a character behind a backslash stands for. -/
def escapes : List (Char × Nat) :=
  [('0', 0), ('a', 7), ('b', 8), ('t', 9), ('\t', 9), ('n', 10), ('v', 11), ('f', 12), ('r', 13),
    ('e', 27), (' ', 32), ('"', 34), ('\'', 39), ('\\', 92), ('N', 0x85), ('_', 0xA0),
    ('L', 0x2028), ('P', 0x2029)]

/-- The number of hexadecimal digits that follow a character behind a backslash. -/
def codeLengths : List (Char × Nat) :=
  [('x', 2), ('u', 4), ('U', 8)]

def hexDigit? (ch : Char) : Option Nat :=
  if ch.isDigit then some (ch.toNat - 48)
  else if 'a' ≤ ch && ch ≤ 'f' then some (ch.toNat - 87)
  else if 'A' ≤ ch && ch ≤ 'F' then some (ch.toNat - 55)
  else none

def hexValue? (cs : List Char) : Option Nat :=
  cs.foldl (fun n ch => do return 16 * (← n) + (← hexDigit? ch)) (some 0)

/-- Reads an escape, from its backslash on: the character it stands for. -/
def readEscape (start : Mark) (c : Cursor) : Except Fault (Char × Cursor) := do
  let letter := (c.rest.tail.head?).getD '\x00'
  match escapes.lookup letter, codeLengths.lookup letter with
  | some n, _ => return (Char.ofNat n, c.past 2)
  | none, none => c.refuse start "found unknown escape character"
  | none, some length =>
    let c := c.past 2
    c.need length
    let digits := c.rest.take length
    match hexValue? digits with
    | none => c.refuse start "did not find expected hexdecimal number"
    | some n =>
      if digits.length < length then c.refuse start "did not find expected hexdecimal number"
      else if Source.isSurrogate n || 0x10FFFF < n then
        c.refuse start "found invalid Unicode character escape code"
      else return (Char.ofNat n, c.past length)

def quoteMark (single : Bool) : Char :=
  if single then '\'' else '"'

/-- Reads characters of a quoted scalar up to a gap or the closing mark, behind those in `done`,
which are in reverse. The flag tells that an escaped line end came last. -/
def readQuotedWord (single : Bool) (start : Mark) :
    (fuel : Nat) → (done : List Char) → Cursor → Except Fault (List Char × Bool × Cursor)
  | 0, done, c => .ok (done, false, c)
  | fuel + 1, done, c => do
    match c.rest with
    | [] => return (done, false, c)
    | ch :: rest =>
      if isSpace ch then return (done, false, c)
      else if single && ch == '\'' && rest.head? == some '\'' then
        let c := c.past 2
        c.need 2
        readQuotedWord single start fuel ('\'' :: done) c
      else if ch == quoteMark single then return (done, false, c)
      else if !single && ch == '\\' && rest.head?.any isBreak then
        c.need 3
        return (done, true, (c.past 1).skipBreak)
      else
        let (ch, c) ← if !single && ch == '\\' then readEscape start c else pure (ch, c.past 1)
        c.need 2
        readQuotedWord single start fuel (ch :: done) c

/-- Reads a quoted scalar behind its opening mark and the characters in `done`. -/
def readQuotedFrom (single : Bool) (start : Mark) :
    (fuel : Nat) → (done : List Char) → Cursor → Except Fault ScalarText
  | 0, done, c => .ok ⟨textOf done.reverse, false, c⟩
  | fuel + 1, done, c => do
    c.need 4
    if c.isAtDocumentMarker then c.refuse start "found unexpected document indicator"
    if c.rest.isEmpty then c.refuse start "found unexpected end of stream"
    let (done, escaped, c) ← readQuotedWord single start c.bound done c
    c.need 1
    if c.isAt (quoteMark single) then return ⟨textOf done.reverse, false, c.past 1⟩
    let (g, c) ← readGap 0 start { broken := escaped } c (c.rest.takeWhile isSpace)
    c.need 1
    readQuotedFrom single start fuel (g.value.reverse ++ done) c

def readQuoted (single : Bool) (c : Cursor) : Except Fault ScalarText :=
  readQuotedFrom single c.mark c.bound [] (c.past 1)

/-! ### Blocks -/

/-- What becomes of the line ends behind the last line of a block. -/
inductive Chomping where
  | strip
  | clip
  | keep
  deriving DecidableEq

def readChomping (c : Cursor) : Option (Chomping × Cursor) :=
  if c.isAt '+' then some (.keep, c.past 1)
  else if c.isAt '-' then some (.strip, c.past 1)
  else none

/-- Reads an indicator of how far a block is indented; nothing is zero. -/
def readIncrement (start : Mark) (c : Cursor) : Except Fault (Nat × Cursor) := do
  match c.head?.filter Char.isDigit with
  | none => return (0, c)
  | some '0' => c.refuse start "found an indentation indicator equal to 0"
  | some d =>
    let c := c.past 1
    c.need 1
    return (d.toNat - 48, c)

/-- Reads the two indicators of a block in either order. -/
def readIndicators (start : Mark) (c : Cursor) : Except Fault (Chomping × Nat × Cursor) := do
  c.need 1
  match readChomping c with
  | some (chomping, c) =>
    c.need 1
    let (increment, c) ← readIncrement start c
    return (chomping, increment, c)
  | none =>
    let (increment, c) ← readIncrement start c
    match if increment = 0 then none else readChomping c with
    | some (chomping, c) => return (chomping, increment, c)
    | none => return (.clip, increment, c)

/-- Reads the rest of a line, which holds at most a comment, and its end. -/
def readLineEnd (start : Mark) (c : Cursor) : Except Fault Cursor := do
  let c := c.skipWhile isBlank
  c.need 1
  let c := if c.isAt '#' then c.skipWhile (!isBreak ·) else c
  c.need 1
  if !endsLine c.rest then c.refuse start "did not find expected comment or line break"
  if !c.rest.isEmpty then c.need 2
  return c.skipBreak

/-- Reads empty lines and the indentation of the line behind them: the greatest indentation, the
line ends, the last one first, and the place. Without an `indent` all spaces belong to it. -/
def readIndentation (start : Mark) (indent : Option Nat) :
    (fuel greatest : Nat) → (breaks : List Char) → Cursor →
      Except Fault (Nat × List Char × Cursor)
  | 0, greatest, breaks, c => .ok (greatest, breaks, c)
  | fuel + 1, greatest, breaks, c => do
    let spaces := (c.rest.takeWhile (· == ' ')).length
    let c := c.past ((indent.map fun n => min spaces (n - c.mark.column)).getD spaces)
    c.need 1
    let greatest := max greatest c.mark.column
    if indent.all (c.mark.column < ·) && c.isAt '\t' then
      c.refuse start "found a tab character where an indentation space is expected"
    match c.head?.filter isBreak with
    | none => return (greatest, breaks, c)
    | some ch =>
      c.need 2
      readIndentation start indent fuel greatest (Cursor.breakValue ch :: breaks) c.skipBreak

structure BlockText where
  /-- The characters, the last one first. -/
  done : List Char := []
  ending : Option Char := none
  /-- The ends of the empty lines behind it, the last one first. -/
  breaks : List Char := []
  blank : Bool := false

/-- Adds the line ends before a line, folded if wanted. -/
def BlockText.join (b : BlockText) (literal blank : Bool) : List Char :=
  if !literal && !b.blank && !blank && b.ending == some '\n' then
    if b.breaks.isEmpty then ' ' :: b.done else b.breaks ++ b.done
  else b.breaks ++ b.ending.toList ++ b.done

def readLines (literal : Bool) (start : Mark) (indent : Nat) :
    (fuel : Nat) → BlockText → Cursor → Except Fault (BlockText × Cursor)
  | 0, b, c => .ok (b, c)
  | fuel + 1, b, c => do
    if c.mark.column ≠ indent || c.rest.isEmpty then return (b, c)
    let blank := c.head?.any isBlank
    let (line, c) := c.takeWhile (!isBreak ·)
    c.need 2
    let done := line.reverse ++ b.join literal blank
    let ending := (c.head?.filter isBreak).map Cursor.breakValue
    let (_, breaks, c) ← readIndentation start (some indent) c.bound 0 [] c.skipBreak
    readLines literal start indent fuel { done, ending, breaks, blank } c

/-- The characters of a block with what remains of its last line ends, in reverse. -/
def BlockText.chomped (b : BlockText) : Chomping → List Char
  | .strip => b.done
  | .clip => b.ending.toList ++ b.done
  | .keep => b.breaks ++ b.ending.toList ++ b.done

/-- Reads a block below a node that is indented by `indent`. -/
def readBlock (literal : Bool) (indent : Int) (c : Cursor) : Except Fault ScalarText := do
  let start := c.mark
  let (chomping, increment, c) ← readIndicators start (c.past 1)
  let c ← readLineEnd start c
  let given : Option Nat :=
    if increment = 0 then none else some (increment + indent.toNat)
  let (greatest, breaks, c) ← readIndentation start given c.bound 0 [] c
  let least := max (indent + 1).toNat 1
  let (b, c) ← readLines literal start (given.getD (max greatest least)) c.bound { breaks } c
  return ⟨textOf (b.chomped chomping).reverse, false, c⟩

end Population.Yaml
