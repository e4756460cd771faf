import Population.CounterSystem.Draft

/-!
# Reading counter systems

The reader goes over the bytes of the text and counts lines. Words and blanks are those of Latin-1;
a comment runs from `//` to the end of its line. Guards, update bodies and initial values are cut
out up to their closing delimiter and read on their own.
-/

namespace Population.CounterSystem

open Text (byte)

/-- What is wrong at a place of the text. -/
inductive ReadFault where
  | noWord
  | wrongWord (want got : Text)
  | wrongByte (want : UInt8)
  /-- The closing delimiter does not come. -/
  | missingByte (want : UInt8)
  | unknownWord (word : Text)
  | unclosed
  | trailing
  /-- An initial value that is no 64-bit decimal. -/
  | badInitial (literal name : Text)
  /-- A guard or body that cannot be read. -/
  | badTransition (name : Text) (fault : FormulaFault)
  | refused (fault : DeclareFault)
  deriving DecidableEq

def ReadFault.reason : ReadFault → Text
  | noWord => "expected identifier"
  | wrongWord want got => Text.cat ["expected ", want.quote, ", got ", got.quote]
  | wrongByte want => "expected " ++ Text.quoteByte want
  | missingByte want => "missing " ++ Text.quoteByte want
  | unknownWord word => "unexpected " ++ word.quote
  | unclosed => "unexpected end of input, missing '\x7d'"
  | trailing => "trailing content after gal block"
  | badInitial literal name => Text.cat ["bad initial value ", literal.quote, " for ", name]
  | badTransition name fault => Text.cat ["transition ", name, ": ", fault.message]
  | refused fault => fault.message

/-- A fault and the line where it was met. -/
structure ReadError where
  /-- The line, counted from one. -/
  line : Nat
  fault : ReadFault
  deriving DecidableEq

def ReadError.message (e : ReadError) : Text :=
  Text.cat [syntaxHeading, "line ", Text.ofNat e.line, ": ", e.fault.reason]

/-- A place in the text: the line and what is still to be read. -/
structure Place where
  line : Nat
  rest : Text
  deriving DecidableEq

/-- White space of Latin-1. -/
def isBlank (b : UInt8) : Bool :=
  (0x09 ≤ b && b ≤ 0x0D) || b == 0x20 || b == 0x85 || b == 0xA0

/-- Letters of Latin-1. -/
def isLetter (b : UInt8) : Bool :=
  (byte 'A' ≤ b && b ≤ byte 'Z') || (byte 'a' ≤ b && b ≤ byte 'z') || b == 0xAA || b == 0xB5 ||
    b == 0xBA || (0xC0 ≤ b && b ≤ 0xD6) || (0xD8 ≤ b && b ≤ 0xF6) || 0xF8 ≤ b

def startsWord (b : UInt8) : Bool :=
  b == byte '_' || isLetter b

def continuesWord (b : UInt8) : Bool :=
  startsWord b || Text.isDigit b

/-- Skips blanks and comments; `inComment` tells that a comment is being skipped. -/
def skipFrom (inComment : Bool) (line : Nat) : Text → Place
  | [] => ⟨line, []⟩
  | b :: rest =>
    if b = byte '\n' then skipFrom false (line + 1) rest
    else if inComment then skipFrom true line rest
    else if isBlank b then skipFrom false line rest
    else if b = byte '/' ∧ rest.head? = some (byte '/') then skipFrom true line rest
    else ⟨line, b :: rest⟩

def Place.skip (p : Place) : Place :=
  skipFrom false p.line p.rest

/-- Stops at a place with a fault. -/
def Place.fail {α : Type} (p : Place) (fault : ReadFault) : Except ReadError α :=
  .error ⟨p.line, fault⟩

def Place.word (p : Place) : Except ReadError (Text × Place) :=
  let p := p.skip
  match p.rest with
  | [] => p.fail .noWord
  | b :: rest =>
    if startsWord b then
      .ok (b :: rest.takeWhile continuesWord, ⟨p.line, rest.dropWhile continuesWord⟩)
    else p.fail .noWord

def Place.expect (p : Place) (want : UInt8) : Except ReadError Place :=
  let p := p.skip
  match p.rest with
  | [] => p.fail (.wrongByte want)
  | b :: rest => if b = want then .ok ⟨p.line, rest⟩ else p.fail (.wrongByte want)

def lineEnds (t : Text) : Nat :=
  t.countP (· == byte '\n')

/-- Cuts the raw text up to the closing delimiter, which is consumed. -/
def Place.upTo (p : Place) (stop : UInt8) : Except ReadError (Text × Place) :=
  match p.rest.cut stop with
  | none => .error ⟨p.line + lineEnds p.rest, .missingByte stop⟩
  | some (raw, rest) => .ok (raw, ⟨p.line + lineEnds raw, rest⟩)

/-- Attaches the current line to a fault. -/
def Place.check {ε α : Type} (p : Place) (wrap : ε → ReadFault) :
    Except ε α → Except ReadError α
  | .ok a => .ok a
  | .error e => p.fail (wrap e)

/-- Reads what follows the word `int`. -/
def readDeclaration (d : Draft) (p : Place) : Except ReadError (Draft × Place) := do
  let (name, p) ← p.word
  let p ← p.expect (byte '=')
  let (raw, p) ← p.skip.upTo (byte ';')
  let literal := raw.trim
  match literal.toInt64? with
  | none => p.fail (.badInitial literal name)
  | some v =>
    let d ← p.check .refused (d.declare name v)
    return (d, p)

/-- Reads what follows the word `transition`. -/
def readTransition (d : Draft) (p : Place) : Except ReadError (Draft × Place) := do
  let (name, p) ← p.word
  let p ← p.expect (byte '[')
  let (guardText, p) ← p.upTo (byte ']')
  let guard ← p.check (.badTransition name) (Guard.read guardText)
  let p ← p.expect (byte '\x7b')
  let (body, p) ← p.upTo (byte '\x7d')
  let updates ← p.check (.badTransition name) (Updates.read body)
  let d ← p.check .refused (d.addTransition ⟨name, guard, updates⟩)
  return (d, p)

/-- Reads items up to the closing brace. Each item consumes a byte, so fuel above the number of
bytes ahead is never used up. -/
def readItems : (fuel : Nat) → Draft → Place → Except ReadError (Draft × Place)
  | 0, _, p => p.fail .unclosed
  | fuel + 1, d, p =>
    let p := p.skip
    match p.rest with
    | [] => p.fail .unclosed
    | b :: rest =>
      if b = byte '\x7d' then .ok (d, ⟨p.line, rest⟩)
      else do
        let (word, p) ← p.word
        if word = Text.ofString "int" then
          let (d, p) ← readDeclaration d p
          readItems fuel d p
        else if word = Text.ofString "transition" then
          let (d, p) ← readTransition d p
          readItems fuel d p
        else p.fail (.unknownWord word)

/-- Reads one system block. -/
def read (t : Text) : Except ReadError CounterSystem := do
  let p : Place := ⟨1, t⟩
  let (word, p) ← p.word
  if word ≠ Text.ofString "gal" then p.fail (.wrongWord "gal" word)
  else
    let (name, p) ← p.word
    let p ← p.expect (byte '\x7b')
    let (d, p) ← readItems (t.length + 1) (Draft.new name) p
    let p := p.skip
    if p.rest.isEmpty then return d.system
    else p.fail .trailing

end Population.CounterSystem
