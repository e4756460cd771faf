import Population.Settings.Field
import Population.Yaml.Reader

/-!
# Settings files

A settings file is a map whose keys are those of the table. A value that does not fit its setting,
an unknown key and a repeated key are complaints; the other settings of the file are read all the
same, so that all complaints are reported together. What its own tag does not fit is refused at
once, and so is a file that refers to itself or to other parts of it too often.

A map may take over entries of other maps. Its own entries win, and of the other maps the first one
that has a key.
-/

namespace Population.Settings

/-! ### Values -/

/-- A number without its fraction; one out of range becomes the least number. -/
def truncate (x : Float) : Int64 :=
  if -9223372036854775808 ≤ x ∧ x < 9223372036854775808 then x.toInt64 else Int64.minValue

/-- A number without its fraction as a word of 64 bits. Of a number that has the highest bit, or a
sign, the lower bits are those of its distance to 2^63. -/
def truncateNatural (x : Float) : UInt64 :=
  let high := truncate x
  let low := truncate (x - 9223372036854775808)
  if high < 0 then high.toUInt64 ||| low.toUInt64 else high.toUInt64

def intOf : Yaml.Value → Option Int64
  | .int n => if n ≤ Int64.maxValue.toInt then some (.ofInt n) else none
  | .float x => if x ≤ 9223372036854775808 then some (truncate x) else none
  | _ => none

def naturalOf : Yaml.Value → Option UInt64
  | .int n => if 0 ≤ n then some (.ofNat n.toNat) else none
  | .float x => if x ≤ 18446744073709551616 then some (truncateNatural x) else none
  | _ => none

def yesWords : List Text := ["y", "Y", "yes", "Yes", "YES", "on", "On", "ON"]

def noWords : List Text := ["n", "N", "no", "No", "NO", "off", "Off", "OFF"]

def boolOf : Yaml.Value → Option Bool
  | .bool b => some b
  | .text t => if yesWords.contains t then some true
    else if noWords.contains t then some false else none
  | _ => none

/-- A text for a setting: what is no text is taken as it is written. -/
def textOf (written : Text) : Yaml.Value → Text
  | .text t => t
  | _ => written

/-- A duration for a setting; a number without a unit is none. -/
def durationOf : Yaml.Value → Option Duration
  | .text t => (Duration.read t).toOption
  | _ => none

/-- Puts a value into its place, if it fits. -/
def Place.fill (p : Place) (v : Yaml.Value) (written : Text) (s : Settings) : Option Settings :=
  match p with
  | int slot => (intOf v).map fun a => slot.set a s
  | natural slot => (naturalOf v).map fun a => slot.set a s
  | flag slot => (boolOf v).map fun a => slot.set a s
  | text slot => some (slot.set (textOf written v) s)
  | duration slot => (durationOf v).map fun a => slot.set a s

/-! ### Complaints -/

def atLine (n : Nat) (what : Text) : Text :=
  Text.cat ["line ", Text.ofNat n, ": ", what]

/-- How a value is shown in a complaint: a long one is cut. -/
def excerpt (written : Text) : Text :=
  Text.cat [" \x60", if 10 < written.length then written.take 7 ++ "..." else written, "\x60"]

def misfit (n : Yaml.Node) (typeName : Text) : Text :=
  let shown := if n.tag = "!!seq" || n.tag = "!!map" then n.text else excerpt n.text
  atLine n.line (Text.cat ["cannot unmarshal ", n.tag, shown, " into ", typeName])

/-- The complaints about keys that repeat an earlier one. -/
def repeats : List (Yaml.Node × Yaml.Node) → List Text
  | [] => []
  | (k, _) :: rest =>
    (rest.filter fun (k', _) => k.sameKey k').map (fun (k', _) =>
      atLine k'.line (Text.cat
        ["mapping key ", k'.text.quote, " already defined at line ", Text.ofNat k.line])) ++
      repeats rest

/-- The complaints about a node where none of its kind is expected: a map with repeated keys is
complained about for these. -/
def misfits (n : Yaml.Node) (typeName : Text) : List Text :=
  match n with
  | .map _ _ entries =>
    match repeats entries with
    | [] => [misfit n typeName]
    | complaints => complaints
  | _ => [misfit n typeName]

/-! ### Reading -/

/-- Settings with the complaints about where they come from. -/
structure Reading where
  settings : Settings
  /-- The complaints, the last one first. -/
  complaints : List Text := []
  /-- How many nodes have been looked at. -/
  steps : Nat := 0
  /-- How many of them were reached by reference. -/
  borrowed : Nat := 0

/-- Steps of reading settings; a refusal says why. -/
abbrev Read := StateT Reading (Except Text)

def refuse {α : Type} (why : Text) : Read α :=
  throw why

def complain (complaints : List Text) : Read Unit :=
  modify fun r => { r with complaints := complaints.reverse ++ r.complaints }

/-- Whether too many nodes were reached by reference: in a small document up to 99 of 100 may be, in
a large one 10, and between 400000 and 4000000 nodes the share falls evenly. -/
def isExcessive (borrowed steps : Nat) : Bool :=
  let range := 3600000
  let above := min (steps - 400000) range
  100 < borrowed && 1000 < steps &&
    steps * (99 * range - 89 * above) < borrowed * (100 * range)

def count (active : List Nat) : Read Unit := do
  let r ← get
  let steps := r.steps + 1
  let borrowed := if active.isEmpty then r.borrowed else r.borrowed + 1
  if isExcessive borrowed steps then refuse "document contains excessive aliasing"
  set { r with steps, borrowed }

/-- The node that is meant and the references it is reached through. -/
def follow (d : Yaml.Document) (active : List Nat) (n : Yaml.Node) :
    Read (Yaml.Node × List Nat) := do
  count active
  match n with
  | .reference _ name number target =>
    if active.contains number then refuse (Text.cat ["anchor '", name, "' value contains itself"])
    count (number :: active)
    return (d.named[target]?.getD (.empty 0), number :: active)
  | _ => return (n, active)

/-- Reads a key; nothing and what is no scalar are none. -/
def readKey (d : Yaml.Document) (active : List Nat) (n : Yaml.Node) : Read (Option Text) := do
  let (n, _) ← follow d active n
  match n with
  | .scalar _ tag written =>
    match ← Yaml.Value.ofTagged tag written with
    | .null => return none
    | v => return some (textOf written v)
  | _ =>
    complain (misfits n "string")
    return none

/-- Reads the value of a setting; nothing leaves it as it is. -/
def readValue (d : Yaml.Document) (active : List Nat) (f : Field) (n : Yaml.Node) : Read Unit := do
  let (n, _) ← follow d active n
  match n with
  | .scalar _ tag written =>
    match ← Yaml.Value.ofTagged tag written with
    | .null => return
    | v =>
      match f.place.fill v written (← get).settings with
      | some settings => modify fun r => { r with settings }
      | none => complain [misfit n f.place.typeName]
  | _ => complain (misfits n f.place.typeName)

/-- What a key of a group leads to. -/
inductive Entry where
  | group (g : Group)
  | field (f : Field)

/-- The entry of a group with a key; the other groups stand at the top. -/
def entry? (g : Group) (key : Text) : Option Entry :=
  match if g = .general then Group.nested.find? fun g' => g'.key == key else none with
  | some g' => some (.group g')
  | none => (field? g key).map .field

/-- Reads the entries of a group one after the other. Keys that have been read before, in `done`,
are complained about; keys that a map with precedence has, in `taken`, are passed over. -/
def readEntries (d : Yaml.Document) (active : List Nat) (g : Group)
    (readNested : Group → Yaml.Node → Read Unit) :
    (done : List Text) → (taken : Option (List Text)) → List (Yaml.Node × Yaml.Node) →
      Read (Option (List Text))
  | _, taken, [] => return taken
  | done, taken, (k, v) :: rest => do
    if k.isMergeKey then return ← readEntries d active g readNested done taken rest
    match ← readKey d active k with
    | none => readEntries d active g readNested done taken rest
    | some key =>
      if taken.any (·.contains key) then
        return ← readEntries d active g readNested done taken rest
      let taken := taken.map (key :: ·)
      match entry? g key with
      | none =>
        complain [atLine k.line (Text.cat ["field ", key, " not found in type ", g.typeName])]
        readEntries d active g readNested done taken rest
      | some e =>
        if done.contains key then
          complain [atLine k.line (Text.cat ["field ", key, " already set in type ", g.typeName])]
        else
          match e with
          | .group g' => readNested g' v
          | .field f => readValue d active f v
        readEntries d active g readNested (key :: done) taken rest

/-! ### Maps that take over others -/

def tagOf (d : Yaml.Document) : Yaml.Node → Text
  | .reference _ _ _ target => (d.named[target]?.getD (.empty 0)).tag
  | n => n.tag

def typeOf (d : Yaml.Document) : Yaml.Node → Text
  | .map _ _ entries =>
    if entries.all fun (k, _) => tagOf d k = "!!str" || tagOf d k = Yaml.Node.mergeTag then
      "map[string]interface \x7b\x7d"
    else "map[interface \x7b\x7d]interface \x7b\x7d"
  | _ => "[]interface \x7b\x7d"

/-- Reads a key that is to have precedence; only a text can, and no collection may be among them. -/
def readOwnKey (d : Yaml.Document) (active : List Nat) (n : Yaml.Node) : Read (Option Text) := do
  let (n, _) ← follow d active n
  match n with
  | .scalar _ tag written =>
    match ← Yaml.Value.ofTagged tag written with
    | .text t => return some t
    | _ => return none
  | _ =>
    match n with
    | .map _ _ entries =>
      if !(repeats entries).isEmpty then
        complain (repeats entries)
        return none
    | _ => pure ()
    refuse ("runtime error: hash of unhashable type " ++ typeOf d n)

def readOwnKeys (d : Yaml.Document) (active : List Nat) :
    (own : List Text) → List (Yaml.Node × Yaml.Node) → Read (List Text)
  | own, [] => return own
  | own, (k, _) :: rest => do readOwnKeys d active ((← readOwnKey d active k).toList ++ own) rest

/-- What a map takes over: the value of the last key for it. -/
def mergedNode? (entries : List (Yaml.Node × Yaml.Node)) : Option Yaml.Node :=
  (entries.reverse.find? fun (k, _) => k.isMergeKey).map (·.2)

/-- Whether a node is a map, or refers to one. -/
def isMap (d : Yaml.Document) : Yaml.Node → Bool
  | .map .. => true
  | .reference _ _ _ target => match d.named[target]? with
    | some (.map ..) => true
    | _ => false
  | _ => false

def readMerged (d : Yaml.Document) (readMap : List Text → Yaml.Node → Read (List Text)) :
    (taken : List Text) → List Yaml.Node → Read (List Text)
  | taken, [] => return taken
  | taken, n :: rest => do
    if !isMap d n then refuse "map merge requires map or sequence of maps as the value"
    readMerged d readMap (← readMap taken n) rest

/-- The maps that a node lists, or the one that it is. -/
def listed : Yaml.Node → List Yaml.Node
  | .list _ _ items => items
  | n => [n]

/-- Reads a group. A group with repeated keys is left alone. Within a map with precedence, `taken`
holds the keys that have been read, and grows. -/
def readGroup (d : Yaml.Document) :
    (fuel : Nat) → (active : List Nat) → Group → (taken : Option (List Text)) → Yaml.Node →
      Read (Option (List Text))
  | 0, _, _, taken, _ => return taken
  | fuel + 1, active, g, taken, n => do
    let (n, active) ← follow d active n
    match n with
    | .map _ _ entries =>
      match repeats entries with
      | [] =>
        let readNested (g' : Group) (v : Yaml.Node) : Read Unit := do
          let _ ← readGroup d fuel active g' none v
        let taken ← readEntries d active g readNested [] taken entries
        match mergedNode? entries with
        | none => return taken
        | some m =>
          let own ← match taken with
            | some keys => pure keys
            | none => readOwnKeys d active [] entries
          let readMap (own : List Text) (v : Yaml.Node) : Read (List Text) := do
            return (← readGroup d fuel active g (some own) v).getD own
          let all ← readMerged d readMap own (listed m)
          return taken.map fun _ => all
      | complaints =>
        complain complaints
        return taken
    | .scalar _ tag written =>
      match ← Yaml.Value.ofTagged tag written with
      | .null => return taken
      | _ =>
        complain [misfit n g.typeName]
        return taken
    | _ =>
      complain [misfit n g.typeName]
      return taken

/-- Reads a document over settings: the settings and the complaints. No chain of references passes
one of them twice, and between two of them collections are only nested so deep. -/
def readDocument (d : Yaml.Document) (s : Settings) : Except Text (Settings × List Text) := do
  let fuel := (d.references + 1) * (2 * Yaml.TokenQueue.depthLimit + 2)
  let (_, r) ← readGroup d fuel [] .general none d.root { settings := s, steps := 1 }
  return (r.settings, r.complaints.reverse)

end Population.Settings
