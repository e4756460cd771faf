import Population.Yaml.Scalar

/-!
# Properties and directives

A node may be given a name, by which it is referred to later, and a tag, which says what it stands
for. Directives before a document name its version and shorten tags.
-/

namespace Population.Yaml

/-- The characters that may follow a name besides a gap. -/
def nameEnds : List Char :=
  ['?', ':', ',', ']', '\x7d', '%', '@', '\x60']

def readName (c : Cursor) : Except Fault (Text × Cursor) := do
  let start := c.mark
  let (name, c) := (c.past 1).takeWhile isWordChar
  c.need 1
  if name.isEmpty || !(endsWord c.rest || c.head?.any nameEnds.contains) then
    c.refuse start "did not find expected alphabetic or numeric character"
  return (textOf name, c)

/-! ### Tags -/

/-- The characters of the body of a tag besides letters and digits. -/
def tagMarks : List Char :=
  ";/?:@&=+$,.!~*'()[]%".toList

def isTagChar (ch : Char) : Bool :=
  isWordChar ch || tagMarks.contains ch

/-- Reads a byte that is written with a percent sign. -/
def readOctet (start : Mark) (c : Cursor) : Except Fault (UInt8 × Cursor) := do
  c.need 3
  match c.rest with
  | '%' :: high :: low :: _ =>
    match hexValue? [high, low] with
    | some n => return (.ofNat n, c.past 3)
    | none => c.refuse start "did not find URI escaped octet"
  | _ => c.refuse start "did not find URI escaped octet"

/-- Reads the further bytes of a character that is written with percent signs. -/
def readTailOctets (start : Mark) : (count : Nat) → (done : Text) → Cursor →
    Except Fault (Text × Cursor)
  | 0, done, c => .ok (done, c)
  | count + 1, done, c => do
    let (b, c') ← readOctet start c
    if b < 0x80 || 0xC0 ≤ b then c.refuse start "found an incorrect trailing UTF-8 octet"
    readTailOctets start count (b :: done) c'

/-- Reads a character that is written with percent signs, behind the bytes in `done`, which are in
reverse. -/
def readOctets (start : Mark) (done : Text) (c : Cursor) : Except Fault (Text × Cursor) := do
  let (b, c') ← readOctet start c
  match Source.width? b with
  | none => c.refuse start "found an incorrect leading UTF-8 octet"
  | some width => readTailOctets start (width - 1) (b :: done) c'

/-- Reads the body of a tag behind the bytes in `done`, which are in reverse. -/
def readTagBody (start : Mark) :
    (fuel : Nat) → (done : Text) → Cursor → Except Fault (Text × Cursor)
  | 0, done, c => .ok (done.reverse, c)
  | fuel + 1, done, c => do
    c.need 1
    match c.head?.filter isTagChar with
    | none => return (done.reverse, c)
    | some '%' =>
      let (done, c) ← readOctets start done c
      readTagBody start fuel done c
    | some ch => readTagBody start fuel ((textOf [ch]).reverse ++ done) (c.past 1)

/-- Reads the body of a tag, which is not empty. -/
def readTagText (start : Mark) (c : Cursor) : Except Fault (Text × Cursor) := do
  let (body, c') ← readTagBody start c.bound [] c
  if body.isEmpty then c'.refuse start "did not find expected tag URI"
  return (body, c')

/-- Reads the handle of a tag: an exclamation mark, and a word that may end in another one. -/
def readHandle (start : Mark) (c : Cursor) : Except Fault (Text × Cursor) := do
  if !c.isAt '!' then c.refuse start "did not find expected '!'"
  let (word, c) := (c.past 1).takeWhile isWordChar
  c.need 1
  let handle := Text.cat ["!", textOf word]
  if c.isAt '!' then return (handle ++ Text.ofString "!", c.past 1) else return (handle, c)

/-- Whether a handle is closed by an exclamation mark of its own. -/
def isClosedHandle (handle : Text) : Bool :=
  1 < handle.length && handle.getLast? == some (Text.byte '!')

/-- A tag as it is written; without a handle it is written in full. -/
structure Tag where
  handle : Text
  suffix : Text
  deriving DecidableEq

/-- Reads a tag without the gap behind it. -/
def readTagOf (start : Mark) (c : Cursor) : Except Fault (Tag × Cursor) := do
  c.need 2
  if c.rest.tail.head? = some '<' then
    let (body, c) ← readTagText start (c.past 2)
    if !c.isAt '>' then c.refuse start "did not find the expected '>'"
    return (⟨[], body⟩, c.past 1)
  let (handle, c) ← readHandle start c
  if isClosedHandle handle then
    let (body, c) ← readTagText start c
    return (⟨handle, body⟩, c)
  let (body, c) ← readTagBody start c.bound handle.tail.reverse c
  return (if body.isEmpty then ⟨[], "!"⟩ else ⟨"!", body⟩, c)

def readTag (c : Cursor) : Except Fault (Tag × Cursor) := do
  let (tag, c') ← readTagOf c.mark c
  c'.need 1
  if !endsWord c'.rest then
    c'.refuse c.mark "did not find expected whitespace or line break"
  return (tag, c')

/-! ### Directives -/

inductive Directive where
  | version (major minor : Nat)
  /-- What the handle of a tag stands for. -/
  | handle (name text : Text)
  deriving DecidableEq

/-- Reads a number of a version, of at most two digits. -/
def readVersionNumber (start : Mark) (c : Cursor) : Except Fault (Nat × Cursor) := do
  let (digits, c') := c.takeWhile Char.isDigit
  if 2 < digits.length then (c.past 2).refuse start "found extremely long version number"
  if digits.isEmpty then c'.refuse start "did not find expected version number"
  return (Text.digitsValue (textOf digits), c')

def readVersion (start : Mark) (c : Cursor) : Except Fault (Directive × Cursor) := do
  let (major, c) ← readVersionNumber start (c.skipWhile isBlank)
  if !c.isAt '.' then c.refuse start "did not find expected digit or '.' character"
  let (minor, c) ← readVersionNumber start (c.past 1)
  return (.version major minor, c)

/-- Reads the handle of a tag and what it stands for. -/
def readHandleText (start : Mark) (c : Cursor) : Except Fault (Directive × Cursor) := do
  let (name, c) ← readHandle start (c.skipWhile isBlank)
  if name ≠ "!" && !isClosedHandle name then c.refuse start "did not find expected '!'"
  if !c.head?.any isBlank then c.refuse start "did not find expected whitespace"
  let (text, c) ← readTagText start (c.skipWhile isBlank)
  if !endsWord c.rest then c.refuse start "did not find expected whitespace or line break"
  return (.handle name text, c)

/-- Reads a directive, from its percent sign to the end of the line. -/
def readDirective (c : Cursor) : Except Fault (Directive × Cursor) := do
  let start := c.mark
  let (name, c) := (c.past 1).takeWhile isWordChar
  c.need 1
  if name.isEmpty then c.refuse start "could not find expected directive name"
  if !endsWord c.rest then c.refuse start "found unexpected non-alphabetical character"
  let (directive, c) ←
    if textOf name == "YAML" then readVersion start c
    else if textOf name == "TAG" then readHandleText start c
    else c.refuse start "found unknown directive name"
  return (directive, ← readLineEnd start c)

end Population.Yaml
