import Population.Settings.Field
import Population.Settings.File
import Population.Settings.Problem
import Population.Text.Radix
import Population.Workspace

/-!
# Loading settings

The settings file, if there is one, is laid over the defaults, and the environment over both. The
result is checked.

A variable that is set and not empty overrides its setting. Numbers are decimal and have 32 bits.
All complaints about variables are reported together.
-/

namespace Population

namespace Settings

/-- The variables of the environment. -/
abbrev Environment := List (Text × Text)

/-- Reads a variable into its place; a refusal says why. -/
def Place.parse (p : Place) (t : Text) (s : Settings) : Except Text Settings :=
  match p with
  | int slot =>
    match Text.Radix.readDecimal 32 t with
    | .ok n => .ok (slot.set (.ofInt n) s)
    | .error f => .error (Text.Radix.complaint "ParseInt" t f)
  | natural slot =>
    match Text.Radix.readUnsigned 64 t with
    | .ok n => .ok (slot.set (.ofNat n) s)
    | .error f => .error (Text.Radix.complaint "ParseUint" t f)
  | flag slot =>
    match Text.Radix.readBool t with
    | .ok b => .ok (slot.set b s)
    | .error f => .error (Text.Radix.complaint "ParseBool" t f)
  | text slot => .ok (slot.set t s)
  | duration slot =>
    match Duration.read t with
    | .ok d => .ok (slot.set d s)
    | .error f => .error ("unable to parse duration: " ++ f.message t)

def readVariable (env : Environment) (s : Settings) (f : Field) : Except Text Settings :=
  let t := (env.lookup f.variableName).getD []
  if t.isEmpty then .ok s
  else (f.place.parse t s).mapError fun why =>
    Text.cat ["parse error on field ", f.label.quote, " of type ", f.place.typeName.quote, ": ",
      why]

/-- Reads the variables of all settings; the complaints are behind. -/
def readVariables (env : Environment) (s : Settings) : Settings × List Text :=
  fields.foldl (fun (s, complaints) f =>
    match readVariable env s f with
    | .ok s => (s, complaints)
    | .error why => (s, complaints ++ [why])) (s, [])

end Settings

/-- Why settings cannot be loaded. -/
inductive SettingsError where
  | noFile (e : FileError)
  | unreadable (path : Text) (e : FileError)
  | noDocument (path : Text) (fault : Yaml.Fault)
  | refused (path why : Text)
  | unsuitable (path : Text) (complaints : List Text)
  | environment (complaints : List Text)
  | invalid (problems : List Settings.Problem)

def SettingsError.message : SettingsError → Text
  | noFile e => "open config: " ++ e.message
  | unreadable path e => Text.cat ["config ", path, ": ", e.message]
  | noDocument path fault => Text.cat ["config ", path, ": ", fault.message]
  | refused path why => Text.cat ["config ", path, ": yaml: ", why]
  | unsuitable path complaints =>
    Text.cat
      ["config ", path, ": yaml: unmarshal errors:\n  ", Text.join "\n  " complaints]
  | environment complaints => "parse env: env: " ++ Text.join "; " complaints
  | invalid problems =>
    "invalid config: " ++ Text.join "\n" (problems.map Settings.Problem.message)

namespace Settings

def check (s : Settings) : Except SettingsError Settings :=
  match s.problems with
  | [] => .ok s
  | ps => .error (.invalid ps)

/-- Lays the text of a file over settings; a blank one changes nothing. -/
def readText (path : Text) (s : Settings) (t : Text) : Except SettingsError Settings :=
  if t.trim.isEmpty then .ok s
  else
    match Yaml.Document.ofText t with
    | .error fault => .error (.noDocument path fault)
    | .ok d =>
      match readDocument d s with
      | .error why => .error (.refused path why)
      | .ok (s, []) => .ok s
      | .ok (_, complaints) => .error (.unsuitable path complaints)

/-- Lays a file over settings; without a path there is none. -/
def readFile (w : Workspace) (path : Text) (s : Settings) : Except SettingsError Settings :=
  if path.isEmpty then .ok s
  else match w.read path with
    | .ok t => readText path s t
    | .error e => .error (if e.fault = .isFolder then .unreadable path e else .noFile e)

def readEnvironment (env : Environment) (s : Settings) : Except SettingsError Settings :=
  match readVariables env s with
  | (s, []) => .ok s
  | (_, complaints) => .error (.environment complaints)

def load (w : Workspace) (path : Text) (env : Environment) : Except SettingsError Settings := do
  let s ← readFile w path {}
  let s ← readEnvironment env s
  check s

end Settings

end Population
