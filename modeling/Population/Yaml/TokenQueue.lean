import Population.Yaml.Property
import Std.Data.TreeMap

/-!
# Reading tokens

Tokens are the marks and scalars that a document consists of. What lines and columns mean is said by
tokens of their own: where a collection starts and ends, and what is a key.

A key is known to be one only by the colon behind it, so tokens wait in a queue until it is certain
that no mark of a key has to be put before them. On every level of brackets there is one candidate
for a key. It is given up at the end of its line or after 1024 characters; where a key is required,
giving it up is a fault.
-/

namespace Population.Yaml

inductive TokenKind where
  | streamStart
  | streamEnd
  | directive (d : Directive)
  | documentStart
  | documentEnd
  | blockListStart
  | blockMapStart
  | blockEnd
  | flowListStart
  | flowListEnd
  | flowMapStart
  | flowMapEnd
  | blockEntry
  | flowEntry
  | key
  | value
  | reference (name : Text)
  | anchor (name : Text)
  | tag (t : Tag)
  | scalar (text : Text) (plain : Bool)
  deriving DecidableEq

/-- A token and the line on which it starts. -/
structure Token where
  kind : TokenKind
  line : Nat
  deriving DecidableEq

/-- A token that may turn out to be a key. -/
structure KeyCandidate where
  possible : Bool := false
  /-- Whether nothing but a key may stand here. -/
  required : Bool := false
  number : Nat := 0
  mark : Mark := {}
  deriving DecidableEq

structure TokenQueue where
  cursor : Cursor
  started : Bool := false
  keyAllowed : Bool := true
  /-- The column of the innermost block, and -1 outside of all. -/
  indent : Int := -1
  /-- The columns of the blocks around it, the innermost one last. -/
  outerIndents : Array Int := #[]
  /-- The candidate on each level of brackets, the innermost one last. -/
  candidates : Array KeyCandidate := #[{}]
  /-- The levels of the candidates by the number of their token. -/
  levels : Std.TreeMap Nat Nat := ∅
  waiting : List Token := []
  taken : Nat := 0

namespace TokenQueue

/-- The greatest number of brackets or blocks inside each other. -/
def depthLimit : Nat := 10000

/-- How many characters a key may have. -/
def keyReach : Nat := 1024

def tooDeep : Text :=
  "exceeded max depth of 10000"

def inFlow (q : TokenQueue) : Bool :=
  1 < q.candidates.size

def nextNumber (q : TokenQueue) : Nat :=
  q.taken + q.waiting.length

def push (q : TokenQueue) (kind : TokenKind) (mark : Mark) : TokenQueue :=
  { q with waiting := q.waiting ++ [⟨kind, mark.line⟩] }

/-- Puts a token before the token with a number, or to the end if that one has been taken. -/
def insert (q : TokenQueue) (number : Nat) (kind : TokenKind) (mark : Mark) : TokenQueue :=
  if number < q.taken then q.push kind mark
  else { q with waiting := q.waiting.insertIdx (number - q.taken) ⟨kind, mark.line⟩ }

/-! ### Candidates -/

def candidate (q : TokenQueue) : KeyCandidate :=
  q.candidates.back?.getD {}

def setCandidate (q : TokenQueue) (k : KeyCandidate) : TokenQueue :=
  { q with candidates := q.candidates.pop.push k }

/-- The fault of a required key without a colon. -/
def refuseKey {α : Type} (q : TokenQueue) (k : KeyCandidate) : Except Fault α :=
  q.cursor.refuse k.mark "could not find expected ':'"

def forget (q : TokenQueue) (number : Nat) : TokenQueue :=
  { q with levels := q.levels.erase number }

/-- Gives up the innermost candidate. -/
def dropKey (q : TokenQueue) : Except Fault TokenQueue :=
  let k := q.candidate
  if !k.possible then .ok q
  else if k.required then q.refuseKey k
  else .ok ((q.setCandidate { k with possible := false }).forget k.number)

/-- Makes the next token the innermost candidate, where a key may start. -/
def saveKey (q : TokenQueue) : Except Fault TokenQueue := do
  if !q.keyAllowed then return q
  let mark := q.cursor.mark
  let required := !q.inFlow && q.indent == mark.column
  let q ← q.dropKey
  let number := q.nextNumber
  let q := q.setCandidate { possible := true, required, number, mark }
  return { q with levels := q.levels.insert number (q.candidates.size - 1) }

/-- Whether a candidate may still be a key at the place that has been reached. -/
def isFresh (q : TokenQueue) (k : KeyCandidate) : Bool :=
  q.cursor.mark.line ≤ k.mark.line && q.cursor.mark.index ≤ k.mark.index + keyReach

/-- Whether the candidate on a level may still be a key; if it may not, it is given up. -/
def checkKey (q : TokenQueue) (level : Nat) : Except Fault (Bool × TokenQueue) :=
  match q.candidates[level]? with
  | none => .ok (false, q)
  | some k =>
    if !k.possible then .ok (false, q)
    else if q.isFresh k then .ok (true, q)
    else if k.required then q.refuseKey k
    else
      .ok (false,
        { q with candidates := q.candidates.setIfInBounds level { k with possible := false } })

/-! ### Blocks and brackets -/

/-- Opens a block at a column if it is further to the right; the token of its start comes before the
token with the given number. -/
def openBlock (q : TokenQueue) (column number : Nat) (kind : TokenKind) (mark : Mark) :
    Except Fault TokenQueue := do
  if q.inFlow || column ≤ q.indent then return q
  let q := { q with outerIndents := q.outerIndents.push q.indent, indent := column }
  if depthLimit < q.outerIndents.size then q.cursor.refuse q.candidate.mark tooDeep
  return q.insert number kind mark

def openBlockHere (q : TokenQueue) (kind : TokenKind) : Except Fault TokenQueue :=
  q.openBlock q.cursor.mark.column q.nextNumber kind q.cursor.mark

/-- The blocks further to the right than a column: how many, and those that stay open. -/
def closedBlocks (column : Int) : (fuel count : Nat) → (indent : Int) → Array Int →
    Nat × Int × Array Int
  | 0, count, indent, outer => (count, indent, outer)
  | fuel + 1, count, indent, outer =>
    if indent ≤ column then (count, indent, outer)
    else closedBlocks column fuel (count + 1) (outer.back?.getD (-1)) outer.pop

/-- Closes the blocks further to the right than a column. -/
def closeBlocks (q : TokenQueue) (column : Int) : TokenQueue :=
  if q.inFlow then q
  else
    let (count, indent, outerIndents) :=
      closedBlocks column (q.outerIndents.size + 1) 0 q.indent q.outerIndents
    { q with
      indent, outerIndents
      waiting := q.waiting ++ List.replicate count ⟨.blockEnd, q.cursor.mark.line⟩ }

def openFlow (q : TokenQueue) : Except Fault TokenQueue := do
  let mark := q.cursor.mark
  let q := { q with candidates := q.candidates.push { number := q.nextNumber, mark } }
  if depthLimit + 1 < q.candidates.size then q.cursor.refuse mark tooDeep
  return { q with keyAllowed := true }

def closeFlow (q : TokenQueue) : TokenQueue :=
  if q.inFlow then { q.forget q.candidate.number with candidates := q.candidates.pop } else q

/-! ### Tokens -/

/-- Adds a mark of some characters that starts at the place that has been reached. -/
def pushMark (q : TokenQueue) (kind : TokenKind) (length : Nat) : TokenQueue :=
  { q.push kind q.cursor.mark with cursor := q.cursor.past length }

/-- Adds what has been read from the place that has been reached up to another. -/
def pushRead (q : TokenQueue) (kind : TokenKind) (behind : Cursor) : TokenQueue :=
  { q.push kind q.cursor.mark with cursor := behind }

/-- Ends all blocks before a token of the stream. -/
def leaveBlocks (q : TokenQueue) : Except Fault TokenQueue := do
  let q ← (q.closeBlocks (-1)).dropKey
  return { q with keyAllowed := false }

/-- Reads the end of the stream, which ends the last line too. -/
def readEnd (q : TokenQueue) : Except Fault TokenQueue := do
  let c := q.cursor
  let mark :=
    if c.mark.column = 0 then c.mark else { c.mark with line := c.mark.line + 1, column := 0 }
  let q ← { q with cursor := { c with mark } }.leaveBlocks
  return q.push .streamEnd mark

def readDirectiveToken (q : TokenQueue) : Except Fault TokenQueue := do
  let q ← q.leaveBlocks
  let (d, c) ← readDirective q.cursor
  return q.pushRead (.directive d) c

/-- Reads a line that marks the start or the end of a document. -/
def readDocumentMarker (q : TokenQueue) (kind : TokenKind) : Except Fault TokenQueue := do
  return (← q.leaveBlocks).pushMark kind 3

def readOpening (q : TokenQueue) (kind : TokenKind) : Except Fault TokenQueue := do
  return (← (← q.saveKey).openFlow).pushMark kind 1

def readClosing (q : TokenQueue) (kind : TokenKind) : Except Fault TokenQueue := do
  let q := (← q.dropKey).closeFlow
  return { q with keyAllowed := false }.pushMark kind 1

def readComma (q : TokenQueue) : Except Fault TokenQueue := do
  return { ← q.dropKey with keyAllowed := true }.pushMark .flowEntry 1

/-- Opens a block with an indicator, which may stand where a key may. -/
def openIndicated (q : TokenQueue) (kind : TokenKind) (why : Text) : Except Fault TokenQueue :=
  if q.inFlow then .ok q
  else if !q.keyAllowed then q.cursor.refuse q.cursor.mark why
  else q.openBlockHere kind

def readDash (q : TokenQueue) : Except Fault TokenQueue := do
  let q ← q.openIndicated .blockListStart
    "block sequence entries are not allowed in this context"
  return { ← q.dropKey with keyAllowed := true }.pushMark .blockEntry 1

def readQuestion (q : TokenQueue) : Except Fault TokenQueue := do
  let q ← q.openIndicated .blockMapStart "mapping keys are not allowed in this context"
  return { ← q.dropKey with keyAllowed := !q.inFlow }.pushMark .key 1

/-- Reads the colon behind a key, which makes the candidate one. -/
def readColon (q : TokenQueue) : Except Fault TokenQueue := do
  let (found, q) ← q.checkKey (q.candidates.size - 1)
  if found then
    let k := q.candidate
    let q := q.insert k.number .key k.mark
    let q ← q.openBlock k.mark.column k.number .blockMapStart k.mark
    let q := (q.setCandidate { k with possible := false }).forget k.number
    return { q with keyAllowed := false }.pushMark .value 1
  let q ← q.openIndicated .blockMapStart "mapping values are not allowed in this context"
  return { q with keyAllowed := !q.inFlow }.pushMark .value 1

/-- Reads a node or a property of one, which may start a key; no key may start behind it. -/
def readLead (q : TokenQueue) (read : Cursor → Except Fault (TokenKind × Cursor)) :
    Except Fault TokenQueue := do
  let q ← q.saveKey
  let (kind, c) ← read q.cursor
  return { q with keyAllowed := false }.pushRead kind c

def readBlockToken (q : TokenQueue) (literal : Bool) : Except Fault TokenQueue := do
  let q ← q.dropKey
  let s ← readBlock literal q.indent q.cursor
  return { q with keyAllowed := true }.pushRead (.scalar s.value false) s.cursor

def readQuotedToken (q : TokenQueue) (single : Bool) : Except Fault TokenQueue :=
  q.readLead fun c => return (let s := ← readQuoted single c; (.scalar s.value false, s.cursor))

/-- Reads a plain scalar; behind a line end a key may start. -/
def readPlainToken (q : TokenQueue) : Except Fault TokenQueue := do
  let q ← q.saveKey
  let s ← readPlain q.inFlow (q.indent + 1).toNat q.cursor
  return { q with keyAllowed := s.broken }.pushRead (.scalar s.value true) s.cursor

/-- The characters that start no plain scalar on their own. -/
def indicators : List Char :=
  "-?:,[]\x7b\x7d#&*!|>'\"%@\x60".toList

def startsPlain (inFlow : Bool) : List Char → Bool
  | [] => false
  | ch :: rest =>
    (!isSpace ch && !indicators.contains ch) ||
      (ch == '-' && !rest.head?.any isBlank) ||
      (!inFlow && (ch == '?' || ch == ':') && !endsWord rest)

/-- Reads the token that starts with a character. -/
def readTokenAt (q : TokenQueue) (ch : Char) (rest : List Char) : Except Fault TokenQueue :=
  match ch with
  | '[' => q.readOpening .flowListStart
  | '\x7b' => q.readOpening .flowMapStart
  | ']' => q.readClosing .flowListEnd
  | '\x7d' => q.readClosing .flowMapEnd
  | ',' => q.readComma
  | '*' => q.readLead fun c => return (let (name, c) := ← readName c; (.reference name, c))
  | '&' => q.readLead fun c => return (let (name, c) := ← readName c; (.anchor name, c))
  | '!' => q.readLead fun c => return (let (t, c) := ← readTag c; (.tag t, c))
  | '\'' => q.readQuotedToken true
  | '"' => q.readQuotedToken false
  | _ =>
    if ch == '-' && endsWord rest then q.readDash
    else if ch == '?' && (q.inFlow || endsWord rest) then q.readQuestion
    else if ch == ':' && (q.inFlow || endsWord rest) then q.readColon
    else if ch == '|' && !q.inFlow then q.readBlockToken true
    else if ch == '>' && !q.inFlow then q.readBlockToken false
    else if startsPlain q.inFlow (ch :: rest) then q.readPlainToken
    else q.cursor.refuse q.cursor.mark "found character that cannot start any token"

/-- Moves past blanks, comments and line ends. A tabulator is a blank only where no key may start,
or between brackets. -/
def skipGap : (fuel : Nat) → TokenQueue → Except Fault TokenQueue
  | 0, q => .ok q
  | fuel + 1, q => do
    let c := q.cursor
    c.need 1
    let c := if c.mark.column = 0 && c.isAt '\ufeff' then c.past 1 else c
    let tabs := q.inFlow || !q.keyAllowed
    let c := c.skipWhile fun ch => ch == ' ' || (tabs && ch == '\t')
    c.need 1
    let c ← if c.isAt '#' then c.skipComments c.bound else pure c
    if !c.head?.any isBreak then return { q with cursor := c }
    c.need 2
    skipGap fuel { q with cursor := c.skipBreak, keyAllowed := q.keyAllowed || !q.inFlow }

/-- Moves past a comment on the line of the last token; a dash has none. -/
def skipComment (q : TokenQueue) : Except Fault TokenQueue := do
  if (q.waiting.getLast?.map Token.kind) = some .blockEntry then return q
  return { q with cursor := ← q.cursor.skipLineComment }

def readToken (q : TokenQueue) : Except Fault TokenQueue := do
  q.cursor.need 1
  if !q.started then return { q with started := true }.push .streamStart q.cursor.mark
  let q ← q.skipGap q.cursor.bound
  let q := q.closeBlocks q.cursor.mark.column
  q.cursor.need 4
  match q.cursor.rest with
  | [] => q.readEnd
  | ch :: rest =>
    if q.cursor.mark.column = 0 && ch == '%' then q.readDirectiveToken
    else if q.cursor.isAtMarker '-' then q.readDocumentMarker .documentStart
    else if q.cursor.isAtMarker '.' then q.readDocumentMarker .documentEnd
    else (← q.readTokenAt ch rest).skipComment

/-- Whether the first token that waits may be taken: two more wait behind it, and it cannot turn out
to be a key any more. -/
def isReady (q : TokenQueue) : Except Fault (Bool × TokenQueue) :=
  match q.waiting with
  | _ :: _ :: _ :: _ =>
    match q.levels[q.taken]? with
    | none => .ok (true, q)
    | some level => do
      let (possible, q) ← q.checkKey level
      return (!possible, q)
  | _ => .ok (false, q)

/-- Reads tokens until the first one may be taken. -/
def supply : (fuel : Nat) → TokenQueue → Except Fault TokenQueue
  | 0, q => .ok q
  | fuel + 1, q => do
    let (ready, q) ← q.isReady
    if ready then return q else supply fuel (← q.readToken)

/-- The next token, which stays in the queue. -/
def peek (q : TokenQueue) : Except Fault (Token × TokenQueue) := do
  let q ← q.supply (q.cursor.bound + 4)
  return (q.waiting.head?.getD ⟨.streamEnd, q.cursor.mark.line⟩, q)

def skip (q : TokenQueue) : TokenQueue :=
  { q with waiting := q.waiting.tail, taken := q.taken + 1 }

def ofText (t : Text) : TokenQueue where
  cursor := .start (.ofText t)

end TokenQueue

end Population.Yaml
