import Population.Oracle.Basic
import Population.Workspace

/-!
# The external oracle

Hands a query to a command-line tool and reads the verdict from what it prints. Whatever the tool
does is given as a value; a tool that fails, hangs or prints no verdict leaves the query undecided.
-/

namespace Population.External

open Text (byte)

def name : Text := "its"

def tool : Text := "its-reach"

/-- Where the tool is looked for unless told otherwise. -/
def defaultPath : Text := "./its-reach"

/-- How long the tool may take unless told otherwise: a minute. -/
def defaultTimeout : Duration := 60000000000

/-- Why the tool cannot be started. -/
inductive StartFault where
  /-- The path leads to no file, or the call cannot be made. -/
  | file (fault : FileFault)
  | forbidden
  | longArgument
  /-- The path is a mere name, which is listed nowhere. -/
  | unlisted
  | root
  deriving DecidableEq

def StartFault.message (path : Text) : StartFault → Text
  | file fault => Text.cat ["fork/exec ", path, ": ", fault.reason]
  | forbidden => Text.cat ["fork/exec ", path, ": permission denied"]
  | longArgument => Text.cat ["fork/exec ", path, ": argument list too long"]
  | unlisted => Text.cat ["exec: ", path.quote, ": executable file not found in $PATH"]
  | root => Text.cat ["exec: ", path.quote, ": ", FileFault.isFolder.reason]

/-- What the tool does when it is started. -/
inductive Behaviour where
  | absent (why : StartFault)
  /-- It never ends after printing. -/
  | hangs (stdout : Text)
  /-- It ends with a status after printing. -/
  | ends (status : UInt8) (stdout stderr : Text)
  deriving DecidableEq

def maxArgument : Nat := 131071

/-- What comes of starting the tool with arguments: those that hold a zero byte or are too long
cannot be handed over. -/
def Behaviour.startedWith (args : List Text) (b : Behaviour) : Behaviour :=
  match b with
  | .absent .unlisted | .absent .root => b
  | _ => if args.any (·.contains 0) then .absent (.file .zeroByte) else
    match b with
    | .absent _ => b
    | _ => if args.any fun a => maxArgument < a.length then .absent .longArgument else b

/-- A tool at a path with a time limit. -/
structure Tool where
  path : Text
  timeout : Duration
  behaviour : Behaviour
  deriving DecidableEq

/-- The tool with defaults in place of an empty path and a time limit that is not positive. -/
def Tool.make (path : Text) (timeout : Duration) (behaviour : Behaviour) : Tool where
  path := if path.isEmpty then defaultPath else path
  timeout := if timeout ≤ 0 then defaultTimeout else timeout
  behaviour := behaviour

def arguments (path formula : Text) : List Text :=
  ["-i", path, "-t", "GAL", "-reachable", formula]

/-- Texts that make a line worth reporting. -/
def reportTerms : List Text := ["property", "true", "false", "reachable states"]

/-- The trimmed lines that mention the property, a truth value or the number of reachable
states. -/
def reportLines (output : Text) : List Text :=
  ((Text.split (byte '\n') output).map Text.trim).filter fun l => reportTerms.any l.hasPart

def verdict (output : Text) : Except OracleError Bool :=
  if output.hasPart "is true" then .ok true
  else if output.hasPart "is false" then .ok false
  else .error (.undecided tool "no verdict in output")

def argumentsFor (q : Query) : List Text :=
  arguments q.path ((q.system.map fun sys => formula sys q.target).getD [])

/-- The arguments that the tool is started with, if it is started at all. -/
def call? (t : Tool) (allowance : Allowance) (q : Query) : Option (List Text) := do
  if q.path.isEmpty || allowance.isCancelled then none
  let _ ← q.system
  match t.behaviour.startedWith (argumentsFor q) with
  | .absent _ => none
  | _ => some (argumentsFor q)

/-- What a behaviour says about a query whose formula is given. -/
def judge (t : Tool) (formula : Text) (b : Behaviour) : Reply :=
  let answer (reachable : Bool) (stdout : Text) : Option Answer :=
    some { reachable, formula, output := reportLines stdout, witness := [] }
  match b with
  | .hangs stdout =>
    ⟨answer false stdout, some (.undecided tool ("timed out after " ++ t.timeout.text))⟩
  | .absent why => ⟨answer false [], some (.undecided tool (why.message t.path ++ ": "))⟩
  | .ends status stdout stderr =>
    if status ≠ 0 then
      ⟨answer false stdout, some (.undecided tool
        (Text.cat ["exit status ", Text.ofNat status.toNat, ": ", stderr.trim]))⟩
    else match verdict stdout with
      | .ok reachable => ⟨answer reachable stdout, none⟩
      | .error e => ⟨answer false stdout, some e⟩

def ask (t : Tool) (allowance : Allowance) (q : Query) : Reply :=
  if q.path.isEmpty then ⟨none, some (.undecided tool "no GAL file")⟩
  else
    let formula := (q.system.map fun sys => formula sys q.target).getD []
    if allowance.isCancelled then
      ⟨some { reachable := false, formula, output := [], witness := [] }, some .cancelled⟩
    else judge t formula (t.behaviour.startedWith (argumentsFor q))

end Population.External
