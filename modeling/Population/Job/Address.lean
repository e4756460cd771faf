import Population.Text.LowerCase
import Population.Text.Parameters
import Population.Workspace

/-!
# Addresses of durable stores

A durable store is addressed by a path, to which parameters are added that set up the database. A
path may have parameters of its own behind a question mark; the added ones then run on from the last
of them. A path that starts with `file:` is a locator, in which a percent sign with two digits
stands for a byte, a number sign ends everything, and options choose how the file is opened.
-/

namespace Population

open Text (byte)

/-- Why an address cannot be used. -/
inductive AddressError where
  | unreadable (fault : Parameters.Fault)
  /-- Two file systems are asked for. -/
  | conflict (systems : List Text)
  /-- An option of a locator, or the file system, is not known. -/
  | badOption
  /-- A locator asks for more access than it left itself. -/
  | tooMuch
  deriving DecidableEq

def AddressError.message : AddressError → Text
  | unreadable fault => fault.message
  | conflict systems => "conflicting vfs query parameters: " ++ Text.bracketed systems
  | badOption => "SQL logic error: out of memory (1)"
  | tooMuch => "access permission denied: out of memory (3)"

/-- How a database is opened. -/
inductive Access where
  | readOnly
  | readWrite
  /-- A file is read and written, and made if there is none. -/
  | create
  | memory
  deriving DecidableEq

namespace Access

def words : List (Text × Access) :=
  [("ro", readOnly), ("rw", readWrite), ("rwc", create), ("memory", memory)]

/-- What an access demands; no file is demanded always. -/
def demand : Access → Nat
  | memory => 0
  | readOnly => 1
  | readWrite => 2
  | create => 3

/-- The greatest demand that an access allows to be chosen behind it. -/
def grants : Access → Nat
  | memory => 3
  | a => a.demand

end Access

/-- Where a database is, and how it is opened. -/
structure Address where
  name : Text
  access : Access := .create
  /-- Whether the file is taken never to change. -/
  immutable : Bool := false
  parameters : List (Text × Text) := []
  deriving DecidableEq

namespace Address

/-- The parameters that are added to every path. -/
def added : Text :=
  "?_pragma=foreign_keys(1)&_pragma=busy_timeout(5000)&_pragma=journal_mode(WAL)"

def scheme : Text := "file:"

def memorySystem : Text := "memdb"

def systems : List Text := ["unix", "unix-none", "unix-dotfile", "unix-excl", memorySystem]

/-- A text up to its first zero byte. -/
def upToZero (t : Text) : Text :=
  t.takeWhile (· ≠ 0)

/-- The name of the parameter, and of the option, that asks for a file system. -/
def systemKey : Text := "vfs"

/-- The file system that parameters ask for, if any; an empty text asks for none. -/
def systemOf (entries : List (Text × Text)) : Except AddressError (Option Text) := do
  let values := Parameters.valuesOf systemKey entries
  let step (r v : Text) : Except AddressError Text :=
    if !r.isEmpty && r != v then .error (.conflict values) else .ok v
  let system ← values.foldlM step []
  return if system.isEmpty then none else some (upToZero system)

/-- Reads the escapes of a part of a locator; an escaped zero byte ends the part, and a percent sign
without two digits stands for itself. -/
def decodeFrom (done : Text) : Text → Text
  | [] => done.reverse
  | b :: rest =>
    if b = byte '%' then
      match rest with
      | high :: low :: more =>
        match Parameters.octet? high low with
        | some 0 => done.reverse
        | some o => decodeFrom (o :: done) more
        | none => decodeFrom (b :: done) (high :: low :: more)
      | short => decodeFrom (b :: done) short
    else decodeFrom (b :: done) rest

def decode (t : Text) : Text :=
  decodeFrom [] t

/-- The options of a locator; one without a name is none. -/
def optionsOf (t : Text) : List (Text × Text) :=
  ((Text.split (byte '&') t).map fun piece =>
    let (name, value) := (Text.cut (byte '=') piece).getD (piece, [])
    (decode name, decode value)).filter fun o => !o.1.isEmpty

def cacheWords : List Text := ["shared", "private"]

/-- The access that options leave, one after the other. -/
def accessOf (options : List (Text × Text)) : Except AddressError Access :=
  let step (a : Access) (o : Text × Text) : Except AddressError Access :=
    if o.1 == "cache" then if cacheWords.contains o.2 then .ok a else .error .badOption
    else if o.1 == "mode" then
      match Access.words.lookup o.2 with
      | none => .error .badOption
      | some b => if a.grants < b.demand then .error .tooMuch else .ok b
    else .ok a
  options.foldlM step .create

/-- Whether the value of an option means yes: a number other than zero, or a word. -/
def isYes (t : Text) : Bool :=
  let digits := t.takeWhile Text.isDigit
  if digits.isEmpty then [Text.ofString "on", "yes", "true"].contains t.lower
  else Text.digitsValue digits % 256 != 0 && Text.digitsValue digits < 0x80000000

/-- Reads a locator; `system` is the file system that parameters ask for. -/
def ofLocator (system : Option Text) (parameters : List (Text × Text)) (t : Text) :
    Except AddressError (Option Text × Address) := do
  let body := t.takeWhile (· ≠ byte '#')
  let (name, rest) := (Text.cut (byte '?') body).getD (body, [])
  let options := optionsOf rest
  let access ← accessOf options
  return ((options.reverse.lookup systemKey).or system, {
    name := decode name, access, parameters
    immutable := isYes (Parameters.first "immutable" options) })

def place (system : Option Text) (a : Address) : Except AddressError Address :=
  if !system.all systems.contains then .error .badOption
  else if system = some memorySystem then .ok { a with access := .memory }
  else .ok a

def ofPath (path : Text) : Except AddressError Address := do
  let full := Path.clean path ++ added
  let (name, rest) := (Text.cut (byte '?') full).getD (full, [])
  if name.isEmpty then return { name := upToZero full }
  let entries ← (Parameters.read rest).mapError .unreadable
  let system ← systemOf entries
  match (upToZero full).after? scheme with
  | some t =>
    let (system, a) ← ofLocator system entries t
    place system a
  | none => place system { name := upToZero name, parameters := entries }

end Address

end Population
