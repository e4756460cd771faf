import Population.Job.Address
import Population.Text.Word
import Population.Workspace

/-!
# Where durable stores are kept

A durable store is a database in a file of the workspace. Opening one creates the file where there
is none, but not the folder that is to hold it. The database is set up in stages, and the stage that
first needs the file is the one that finds out that it cannot be used.
-/

namespace Population

open Text (byte)

/-- The stages of opening a store. -/
inductive StorageStage where
  | opening
  | tables
  deriving DecidableEq

/-- What makes the file of a store useless. -/
inductive StorageFault where
  | foreign
  /-- Its name leaves no room for the name of its journal. -/
  | noJournal
  /-- It has to be written and must not be. -/
  | readOnly
  deriving DecidableEq

inductive StorageError where
  | noPath
  | address (e : AddressError)
  /-- The path leads to a folder, or to nowhere. -/
  | noFile
  /-- A parameter is not in the language of the database. -/
  | badPragma
  | badParameter (name value hint : Text)
  | useless (stage : StorageStage) (fault : StorageFault)
  deriving DecidableEq

/-- How the messages about a stage start. -/
def StorageStage.label : StorageStage → Text
  | opening => "ping sqlite db: "
  | tables => "run migrations: ensure migration table: "

def StorageFault.reason : StorageFault → Text
  | foreign => "file is not a database (26)"
  | noJournal => "unable to open database file (14)"
  | readOnly => "attempt to write a readonly database (8)"

def StorageError.message : StorageError → Text
  | noPath => "storage path is required"
  | address e => StorageStage.opening.label ++ e.message
  | noFile => StorageStage.opening.label ++ "unable to open database file: out of memory (14)"
  | badPragma => StorageStage.opening.label ++ "SQL logic error: near \"?\": syntax error (1)"
  | badParameter name value hint =>
    Text.cat [StorageStage.opening.label, "unknown ", name, " ", value.quote, hint]
  | useless stage fault => stage.label ++ fault.reason

inductive StoragePlace where
  /-- It is forgotten when it is closed. -/
  | transient
  /-- It is kept in the file with this cleaned path. -/
  | kept (path : Text)
  deriving DecidableEq

/-- A store that can be used. -/
structure Storage where
  place : StoragePlace
  readOnly : Bool := false
  deriving DecidableEq

namespace Storage

/-- The name that stands for a store which is not kept. -/
def transientName : Text := ":memory:"

def journalSuffix : Text := "-journal"

def maxPath : Nat := 511

/-- Follows components by name only: a folder that is missing does not matter before a double dot.
A component below a file, or one that is too long for its folder, leads nowhere. -/
def settle (w : Workspace) (here : Text) : List Text → Option Text
  | [] => some here
  | c :: cs =>
    if c.isEmpty || c == "." || c == ".." then settle w (Path.join here c) cs
    else match w.node? here with
      | some (.file _) => none
      | some .folder =>
        if Workspace.maxComponent < c.length then none else settle w (Path.join here c) cs
      | none => settle w (Path.join here c) cs

/-- The cleaned path of a file that is there or can be made: its folder is there. -/
def fileAt (w : Workspace) (name : Text) : Option Text := do
  let start : Text := if Path.isRooted name then "/" else "."
  let p ← settle w start (Text.split (byte '/') name)
  if w.node? p = some .folder || maxPath < p.length then none
  if w.node? (Path.join p "..") = some .folder then some p else none

/-- The parameters that set up the database, in the order in which they are carried out: how long to
wait comes first, the others are sorted. -/
def pragmas (parameters : List (Text × Text)) : List Text :=
  let key (v : Text) : Text := v.lowerCase.trim
  let isWait (v : Text) : Bool := (key v).after? "busy_timeout" |>.isSome
  let vs := Parameters.valuesOf "_pragma" parameters
  vs.filter isWait ++ Text.sortBy (fun a b => Text.precedes (key a) (key b))
    (vs.filter fun v => !isWait v)

/-- Carries out the parameters that set up the database. A question mark is out of place in each of
them, and the one about the journal needs the file, whose fault is given. -/
def setUp (fault : Option StorageFault) : List Text → Except StorageError Unit
  | [] => .ok ()
  | v :: rest =>
    if v.contains (byte '?') then .error .badPragma
    else match fault, v.lowerCase.trim.after? "journal_mode" with
      | some f, some _ => .error (.useless .opening f)
      | _, _ => setUp fault rest

/-- The known values of the parameters that take a word. -/
def parameterWords : List (Text × List Text) :=
  [("_time_format", ["sqlite", "datetime"]),
    ("_time_integer_format", ["unix", "unix_milli", "unix_micro", "unix_nano"])]

def parameterFlags : List Text := ["_inttotime", "_texttotime"]

def transactionWords : List Text := ["deferred", "immediate", "exclusive"]

/-- Checks the parameters that have a fixed set of values; an empty value is none. -/
def checkParameters (parameters : List (Text × Text)) : Except StorageError Unit := do
  for (name, known) in parameterWords do
    let v := Parameters.first name parameters
    if !v.isEmpty && !known.contains v then throw (.badParameter name v [])
  for name in parameterFlags do
    let v := Parameters.first name parameters
    if !v.isEmpty && (Text.Radix.readBool v).toOption.isNone then
      throw (.badParameter name v ", must be 0 or 1")
  let name : Text := "_txlock"
  let v := Parameters.first name parameters
  if !v.isEmpty && !transactionWords.contains v.lowerCase then throw (.badParameter name v [])

/-- Carries out the stages of opening a database; `fault` is what the file turns out to be, and
`fresh` tells that there are no tables yet. -/
def prepare (a : Address) (fault : Option StorageFault) (fresh readOnly : Bool) :
    Except StorageError Unit := do
  setUp fault (pragmas a.parameters)
  checkParameters a.parameters
  if let some f := fault then throw (.useless .tables f)
  if fresh && readOnly then throw (.useless .tables .readOnly)

/-- Opens the database at an address; `stores` are the cleaned paths of the files that hold one. -/
def openAt (w : Workspace) (stores : List Text) (a : Address) : Except StorageError Storage := do
  if a.access = .memory || a.name.isEmpty || a.name = transientName then
    let readOnly := a.access == .readOnly
    prepare a none true readOnly
    return { place := .transient, readOnly }
  match fileAt w a.name with
  | none => throw .noFile
  | some p =>
    let content? := match w.node? p with
      | some (.file t) => some t
      | _ => none
    let isStore := stores.contains p
    if !isStore && content?.isNone && a.access != .create then throw .noFile
    let readOnly := a.immutable || a.access == .readOnly
    let name := ((Path.components p).getLast?).getD []
    let fault : Option StorageFault :=
      if isStore then none
      else if content?.any (!·.isEmpty) then some .foreign
      else if !readOnly && Workspace.maxComponent < (name ++ journalSuffix).length then
        some .noJournal
      else none
    prepare a fault (!isStore) readOnly
    return { place := .kept p, readOnly }

/-- Opens the store at a path; an empty file may become one. -/
def locate (w : Workspace) (stores : List Text) (path : Text) : Except StorageError Storage := do
  if path.trim.isEmpty then throw .noPath
  let a ← (Address.ofPath path).mapError .address
  openAt w stores a

end Storage

end Population
