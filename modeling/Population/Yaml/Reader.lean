import Population.Yaml.Node
import Population.Yaml.TokenQueue

/-!
# Reading documents

A document is read from its tokens by descent: every kind of collection has a loop of its own, which
says what may follow an entry. Where an entry is missing, an empty node takes its place.
-/

namespace Population.Yaml

/-- What is known while a document is read. -/
structure Reader where
  tokens : TokenQueue
  /-- What the handles of tags stand for. -/
  handles : List (Text × Text) := []
  /-- The numbers of the nodes with names. -/
  numbers : Std.TreeMap Text Nat := ∅
  /-- The nodes with names that have been read; those that are being read stand empty. -/
  named : Array Node := #[]
  references : Nat := 0

/-- Steps of reading. -/
abbrev Read := StateT Reader (Except Fault)

namespace Reader

def peek : Read Token
  | ⟨tokens, handles, numbers, named, references⟩ => do
    let (t, tokens) ← tokens.peek
    return (t, ⟨tokens, handles, numbers, named, references⟩)

def skip : Read Unit :=
  modify fun r => { r with tokens := r.tokens.skip }

/-! ### Properties -/

/-- What stands before a node, and where it starts. -/
structure Properties where
  line : Nat
  name : Option Text := none
  tag : Option (Tag × Nat) := none

def readNameBehind (p : Properties) : Read Properties := do
  match (← peek).kind with
  | .anchor name =>
    skip
    return { p with name := some name }
  | _ => return p

def readTagBehind (p : Properties) : Read Properties := do
  let t ← peek
  match t.kind with
  | .tag tag =>
    skip
    return { p with tag := some (tag, t.line) }
  | _ => return p

/-- Reads a name and a tag in either order. -/
def readProperties : Read Properties := do
  let t ← peek
  match t.kind with
  | .anchor name =>
    skip
    readTagBehind { line := t.line, name := some name }
  | .tag tag =>
    skip
    readNameBehind { line := t.line, tag := some (tag, t.line) }
  | _ => return { line := t.line }

/-- A tag in full. -/
def fullTag (p : Properties) : Read (Option Text) := do
  match p.tag with
  | none => return none
  | some (tag, line) =>
    if tag.handle.isEmpty then return some tag.suffix
    match (← get).handles.lookup tag.handle with
    | some text => return some (text ++ tag.suffix)
    | none => throw (.badPlace p.line line "found undefined tag handle")

/-- The tag of a node; one that is only an exclamation mark counts as none. -/
def tagOr (given : Option Text) (usual : Text) : Text :=
  match given with
  | none => usual
  | some tag => if tag = "!" then usual else shortTag tag

/-- Keeps a place in the table for a node with a name. -/
def reserve (name : Option Text) : Read (Option Nat) := do
  match name with
  | none => return none
  | some name =>
    let number := (← get).named.size
    modify fun r =>
      { r with numbers := r.numbers.insert name number, named := r.named.push (.empty 0) }
    return some number

def settle (place : Option Nat) (n : Node) : Read Unit :=
  match place with
  | none => return ()
  | some number => modify fun r => { r with named := r.named.setIfInBounds number n }

/-- A reference to a node that has been given a name. -/
def readReference (line : Nat) (name : Text) : Read Node := do
  let r ← get
  match r.numbers[name]? with
  | none => throw (.unknownAnchor name)
  | some target =>
    set { r with references := r.references + 1 }
    return .reference (line + 1) name r.references target

/-! ### Nodes -/

/-- Reads a node, unless one of some tokens shows that there is none. -/
@[inline] def unlessAt (ends : List TokenKind) (line : Nat) (read : Read Node) : Read Node := do
  if ends.contains (← peek).kind then return .empty (line + 1) else read

/-- Reads the value of an entry behind a colon, if there is one. -/
@[inline] def behindColon (ends : List TokenKind) (read : Read Node) : Read Node := do
  let t ← peek
  if t.kind = .value then
    skip
    unlessAt ends t.line read
  else return .empty (t.line + 1)

/-- Moves past the comma between entries and gives the token behind it; the first entry has none
before it. -/
def skipComma (context : Nat) (first : Bool) (closing : TokenKind) (why : Text) : Read Token := do
  let t ← peek
  if first || t.kind = closing then return t
  if t.kind ≠ .flowEntry then throw (.badPlace context t.line why)
  skip
  peek

/-- Behind these tokens there is no entry of a block any more. -/
def blockEnds : List TokenKind := [.key, .value, .blockEnd]

/-- Behind these tokens there is no value in a pair of brackets any more. -/
def flowEnds (closing : TokenKind) : List TokenKind := [.flowEntry, closing]

def noContent {α : Type} (context line : Nat) : Read α :=
  throw (.badPlace context line "did not find expected node content")

mutual

/-- Reads a node. Collections that stand on lines of their own need a `block`, and lists without
indentation have to be allowed. -/
def readNode (block indentless : Bool) : (fuel : Nat) → Read Node
  | 0 => noContent 0 0
  | fuel + 1 => do
    let p ← readProperties
    let t ← peek
    if let .reference name := t.kind then
      if p.name.isNone && p.tag.isNone then
        skip
        return ← readReference t.line name
    let tag ← fullTag p
    let place ← reserve p.name
    let line := p.line + 1
    let n ← match t.kind with
      | .scalar text plain => do
        skip
        pure (Node.scalar line (tagOr tag (scalarTag text plain)) text)
      | .flowListStart => do
        skip
        pure (Node.list line (tagOr tag "!!seq") (← readFlowList t.line true [] fuel))
      | .flowMapStart => do
        skip
        pure (Node.map line (tagOr tag "!!map") (← readFlowMap t.line true [] fuel))
      | kind => do
        if indentless && kind = .blockEntry then
          pure (Node.list line (tagOr tag "!!seq") (← readIndentless [] fuel))
        else if block && kind = .blockListStart then
          skip
          pure (Node.list line (tagOr tag "!!seq") (← readBlockList t.line [] fuel))
        else if block && kind = .blockMapStart then
          skip
          pure (Node.map line (tagOr tag "!!map") (← readBlockMap t.line [] fuel))
        else if p.name.isSome || p.tag.isSome then
          pure (Node.scalar line (tagOr tag "!!null") [])
        else noContent p.line t.line
    settle place n
    return n
termination_by structural fuel => fuel

/-- Reads the items of a list on lines of its own, behind those in `done`, which are in reverse. -/
def readBlockList (context : Nat) (done : List Node) : (fuel : Nat) → Read (List Node)
  | 0 => noContent 0 0
  | fuel + 1 => do
    let t ← peek
    match t.kind with
    | .blockEntry =>
      skip
      let item ← unlessAt [.blockEntry, .blockEnd] t.line (readNode true false fuel)
      readBlockList context (item :: done) fuel
    | .blockEnd =>
      skip
      return done.reverse
    | _ => throw (.badPlace context t.line "did not find expected '-' indicator")
termination_by structural fuel => fuel

/-- Reads the items of a list that is not indented. -/
def readIndentless (done : List Node) : (fuel : Nat) → Read (List Node)
  | 0 => noContent 0 0
  | fuel + 1 => do
    let t ← peek
    match t.kind with
    | .blockEntry =>
      skip
      let item ← unlessAt (.blockEntry :: blockEnds) t.line (readNode true false fuel)
      readIndentless (item :: done) fuel
    | _ => return done.reverse
termination_by structural fuel => fuel

def readBlockMap (context : Nat) (done : List (Node × Node)) :
    (fuel : Nat) → Read (List (Node × Node))
  | 0 => noContent 0 0
  | fuel + 1 => do
    let t ← peek
    match t.kind with
    | .key =>
      skip
      let key ← unlessAt blockEnds t.line (readNode true true fuel)
      let value ← behindColon blockEnds (readNode true true fuel)
      readBlockMap context ((key, value) :: done) fuel
    | .blockEnd =>
      skip
      return done.reverse
    | _ => throw (.badPlace context t.line "did not find expected key")
termination_by structural fuel => fuel

/-- Reads the items of a list in brackets; a single pair is a map of its own. -/
def readFlowList (context : Nat) (first : Bool) (done : List Node) :
    (fuel : Nat) → Read (List Node)
  | 0 => noContent 0 0
  | fuel + 1 => do
    let t ← skipComma context first .flowListEnd "did not find expected ',' or ']'"
    match t.kind with
    | .flowListEnd =>
      skip
      return done.reverse
    | .key =>
      skip
      let k ← peek
      let key ← if (.value :: flowEnds .flowListEnd).contains k.kind then do
          skip
          pure (Node.empty (k.line + 1))
        else readNode false false fuel
      let value ← behindColon (flowEnds .flowListEnd) (readNode false false fuel)
      let _ ← peek
      readFlowList context false (.map (t.line + 1) "!!map" [(key, value)] :: done) fuel
    | _ =>
      let item ← readNode false false fuel
      readFlowList context false (item :: done) fuel
termination_by structural fuel => fuel

/-- Reads the entries of a map in brackets; a key may stand alone. -/
def readFlowMap (context : Nat) (first : Bool) (done : List (Node × Node)) :
    (fuel : Nat) → Read (List (Node × Node))
  | 0 => noContent 0 0
  | fuel + 1 => do
    let t ← skipComma context first .flowMapEnd "did not find expected ',' or '\x7d'"
    match t.kind with
    | .flowMapEnd =>
      skip
      return done.reverse
    | .key =>
      skip
      let k ← peek
      let key ← unlessAt (.value :: flowEnds .flowMapEnd) k.line (readNode false false fuel)
      let value ← behindColon (flowEnds .flowMapEnd) (readNode false false fuel)
      readFlowMap context false ((key, value) :: done) fuel
    | _ =>
      let key ← readNode false false fuel
      let next ← peek
      readFlowMap context false ((key, .empty (next.line + 1)) :: done) fuel
termination_by structural fuel => fuel

end

/-! ### Documents -/

def usualHandles : List (Text × Text) :=
  [("!", "!"), ("!!", standardTags)]

/-- Reads directives; `versioned` tells that a version has been named. -/
def readDirectives (versioned : Bool) : (fuel : Nat) → Read Unit
  | 0 => noContent 0 0
  | fuel + 1 => do
    let t ← peek
    match t.kind with
    | .directive (.version major minor) =>
      if versioned then throw (.badPlace 0 t.line "found duplicate %YAML directive")
      if (major, minor) ≠ (1, 1) then throw (.badPlace 0 t.line "found incompatible YAML document")
      skip
      readDirectives true fuel
    | .directive (.handle name text) =>
      if ((← get).handles.lookup name).isSome then
        throw (.badPlace 0 t.line "found duplicate %TAG directive")
      modify fun r => { r with handles := r.handles ++ [(name, text)] }
      skip
      readDirectives versioned fuel
    | _ => modify fun r => { r with handles := r.handles ++ usualHandles }

/-- Reads a document behind a line that marks its start. -/
def readMarked (fuel : Nat) : Read Node := do
  let t ← peek
  if t.kind ≠ .documentStart then
    throw (.badPlace 0 t.line "did not find expected <document start>")
  skip
  let t ← peek
  match t.kind with
  | .directive _ | .documentStart | .documentEnd | .streamEnd => return .empty (t.line + 1)
  | _ => readNode true false fuel

/-- Reads the first document; what follows it is not looked at, but for one token. -/
def readDocument (fuel : Nat) : Read Document := do
  let _ ← peek
  skip
  let t ← peek
  if t.kind = .streamEnd then throw .noDocument
  readDirectives false fuel
  let root ← match t.kind with
    | .directive _ | .documentStart => readMarked fuel
    | _ => readNode true false fuel
  let _ ← peek
  let r ← get
  return { root, named := r.named, references := r.references }

end Reader

/-- The first document of a text; every character makes at most three tokens. -/
def Document.ofText (t : Text) : Except Fault Document := do
  let tokens := TokenQueue.ofText t
  let (d, _) ← Reader.readDocument (8 * tokens.cursor.bound + 16) { tokens }
  return d

end Population.Yaml
