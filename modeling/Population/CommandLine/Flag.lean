import Population.Text.Radix

/-!
# Flags

A flag is given as `--name value`, `--name=value` or, where it has a letter, as `-l value` or
`-lvalue`; a switch needs no value, and letters of switches may stand in a cluster. Flags and
operands may be mixed; behind `--` everything is an operand.
-/

namespace Population

open Text (byte)

/-- What a flag takes. -/
inductive FlagKind where
  | text
  | integer
  | natural
  | switch
  deriving DecidableEq

structure Flag where
  name : Text
  kind : FlagKind
  letter : Option UInt8 := none
  deriving DecidableEq

inductive FlagValue where
  | text (t : Text)
  | integer (n : Int)
  | natural (n : Nat)
  | switch (b : Bool)
  deriving DecidableEq

/-- Why flags cannot be read. -/
inductive FlagError where
  | malformed (argument : Text)
  | unknownName (name : Text)
  | unknownLetter (letter : UInt8) (cluster : Text)
  /-- The value of a flag given by name is missing. -/
  | noValue (name : Text)
  /-- The value of a flag given by letter is missing. -/
  | noValueFor (letter : UInt8) (cluster : Text)
  | badValue (flag : Flag) (value complaint : Text)
  deriving DecidableEq

/-- How a flag is shown in messages. -/
def Flag.shown (f : Flag) : Text :=
  match f.letter with
  | none => "--" ++ f.name
  | some l => Text.cat ["-", [l], ", --", f.name]

def FlagError.message : FlagError → Text
  | malformed argument => "bad flag syntax: " ++ argument
  | unknownName name => "unknown flag: --" ++ name
  | unknownLetter letter cluster =>
    Text.cat ["unknown shorthand flag: ", Text.quoteByte letter, " in -", cluster]
  | noValue name => "flag needs an argument: --" ++ name
  | noValueFor letter cluster =>
    Text.cat ["flag needs an argument: ", Text.quoteByte letter, " in -", cluster]
  | badValue flag value complaint =>
    Text.cat ["invalid argument ", value.quote, " for ", flag.shown.quote, " flag: ", complaint]

def FlagKind.read (k : FlagKind) (t : Text) : Except Text FlagValue :=
  match k with
  | text => .ok (.text t)
  | integer =>
    match Text.Radix.readInteger t with
    | .ok n => .ok (.integer n)
    | .error f => .error (Text.Radix.complaint "ParseInt" t f)
  | natural =>
    match Text.Radix.readNatural t with
    | .ok n => .ok (.natural n)
    | .error f => .error (Text.Radix.complaint "ParseUint" t f)
  | switch =>
    match Text.Radix.readBool t with
    | .ok b => .ok (.switch b)
    | .error f => .error (Text.Radix.complaint "ParseBool" t f)

structure Arguments where
  /-- The values of flags, the last one first. -/
  values : List (Text × FlagValue) := []
  operands : List Text := []
  deriving DecidableEq

namespace Arguments

def give (a : Arguments) (f : Flag) (t : Text) : Except FlagError Arguments :=
  match f.kind.read t with
  | .ok v => .ok { a with values := (f.name, v) :: a.values }
  | .error complaint => .error (.badValue f t complaint)

def text? (a : Arguments) (name : Text) : Option Text :=
  match a.values.lookup name with
  | some (.text t) => some t
  | _ => none

/-- The text given to a flag; an empty one counts as none. -/
def filled? (a : Arguments) (name : Text) : Option Text :=
  (a.text? name).filter (!·.isEmpty)

def integer? (a : Arguments) (name : Text) : Option Int :=
  match a.values.lookup name with
  | some (.integer n) => some n
  | _ => none

def natural? (a : Arguments) (name : Text) : Option Nat :=
  match a.values.lookup name with
  | some (.natural n) => some n
  | _ => none

def switch? (a : Arguments) (name : Text) : Option Bool :=
  match a.values.lookup name with
  | some (.switch b) => some b
  | _ => none

def isOn (a : Arguments) (name : Text) : Bool :=
  (a.switch? name).getD false

end Arguments

/-- What a switch without a value is given. -/
def switchedOn : Text := "true"

/-- Reads a flag by name, behind the dashes; `next` is the argument that follows. The answer tells
whether that one was used as the value. -/
def readNamed (flags : List Flag) (body : Text) (next : Option Text) (a : Arguments) :
    Except FlagError (Arguments × Bool) := do
  if body.head?.any fun b => b == byte '-' || b == byte '=' then
    throw (.malformed ("--" ++ body))
  let (name, value) := match Text.cut (byte '=') body with
    | some (name, value) => (name, some value)
    | none => (body, none)
  match flags.find? fun f => f.name == name with
  | none => throw (.unknownName name)
  | some f =>
    match value, f.kind, next with
    | some v, _, _ => return (← a.give f v, false)
    | none, .switch, _ => return (← a.give f switchedOn, false)
    | none, _, some v => return (← a.give f v, true)
    | none, _, none => throw (.noValue name)

/-- What starts the arguments of a test run; they are left to the test. -/
def testMark : Text := "test."

/-- Reads a cluster of letters, behind the dash, as `readNamed` reads a name. -/
def readCluster (flags : List Flag) (next : Option Text) :
    (cluster : Text) → Arguments → Except FlagError (Arguments × Bool)
  | [], a => .ok (a, false)
  | l :: rest, a =>
    if testMark.isPrefixOf (l :: rest) then .ok (a, false)
    else match flags.find? fun f => f.letter == some l with
    | none => .error (.unknownLetter l (l :: rest))
    | some f =>
      match rest, f.kind, next with
      | equals :: v :: more, kind, _ =>
        if equals = byte '=' then do return (← a.give f (v :: more), false)
        else if kind = .switch then do readCluster flags next rest (← a.give f switchedOn)
        else do return (← a.give f rest, false)
      | _, .switch, _ => do readCluster flags next rest (← a.give f switchedOn)
      | _ :: _, _, _ => do return (← a.give f rest, false)
      | [], _, some v => do return (← a.give f v, true)
      | [], _, none => .error (.noValueFor l (l :: rest))

def readArguments (flags : List Flag) : List Text → Arguments → Except FlagError Arguments
  | [], a => .ok a
  | arg :: rest, a => do
    match arg with
    | dash :: b :: body =>
      if dash ≠ byte '-' then readArguments flags rest { a with operands := a.operands ++ [arg] }
      else if b = byte '-' ∧ body.isEmpty then
        return { a with operands := a.operands ++ rest }
      else
        let (a, used) ← if b = byte '-' then readNamed flags body rest.head? a
          else readCluster flags rest.head? (b :: body) a
        if used then
          match rest with
          | _ :: more => readArguments flags more a
          | [] => return a
        else readArguments flags rest a
    | _ => readArguments flags rest { a with operands := a.operands ++ [arg] }

end Population
