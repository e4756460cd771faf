import Population.CommandLine.Jobs
import Population.CommandLine.Systems

/-!
# Runs of the program

A run finds its command, reads the flags, loads the settings, lets flags override them, and carries
out the command. When that succeeds, the metrics are written if a file is named for them. Whatever
goes wrong is reported on the error stream behind the log.
-/

namespace Population

/-- What a run leaves for its caller. -/
structure Report where
  exit : Nat
  stdout : Text := []
  stderr : Text := []
  deriving DecidableEq

/-- The settings with the flags that override them. -/
def Settings.override (s : Settings) (a : Arguments) : Settings :=
  { s with
    instanceBound := ((a.integer? "bound").map Int64.ofInt).getD s.instanceBound
    maxConcurrency := ((a.integer? "max-concurrency").map Int64.ofInt).getD s.maxConcurrency
    log :=
      { json := (a.switch? "log-json").getD s.log.json
        level := (a.text? "log-level").getD s.log.level } }

def Command.perform : Command → (operand : Text) → Task Unit
  | generate => Task.generate
  | simulate => Task.simulate
  | explore => Task.explore
  | check => Task.check
  | status => Task.status
  | complete => Task.complete

/-- Writes the metrics to the file that is named for them. -/
def Task.writeMetrics : Task Unit := do
  let d ← get
  match d.arguments.filled? "metrics-file" with
  | none => return
  | some path => writeFile .metrics path d.metrics.text

def usage : Text :=
  Text.cat
    ["usage: ", Command.program, " COMMAND [FLAGS] OPERAND\n\ncommands:\n",
      Command.all.flatMap fun c => Text.cat ["  ", c.name, "\n"]]

/-- The report of an error before anything is logged. -/
def CommandError.report (e : CommandError) : Report where
  exit := e.exitStatus
  stderr := (e.message?.map fun m => Text.cat ["error: ", m, "\n"]).getD []

/-- A run of the program without a command: it tells how it is used. -/
def runUsage (args : List Text) : Report :=
  match readArguments (Command.flags none) args {} with
  | .error e => (CommandError.flag e).report
  | .ok _ => { exit := 0, stdout := usage }

/-- The operand and the settings of a run. -/
def prepare (m : Machine) (i : Invocation) (a : Arguments) :
    Except CommandError (Text × Settings) :=
  match a.operands with
  | [operand] => do
    let path := (a.text? "config").getD []
    let s ← (Settings.load m.workspace path i.environment).mapError .settings
    let s ← (s.override a).check.mapError .settings
    return (operand, s)
  | operands => .error (.operands operands.length)

/-- Carries out a command with its settings. -/
def runPrepared (style : Style) (m : Machine) (i : Invocation) (a : Arguments) (c : Command)
    (operand : Text) (s : Settings) : Report × Machine :=
  let desk : Desk := { machine := m, stdin := i.stdin, style, settings := s, arguments := a }
  let task : Task Unit := do
    c.perform operand
    Task.writeMetrics
  let (outcome, d) := task.run.run desk
  let log := s.logger.write (style.time d.machine.clock.now) d.logs
  let ending : Report := match outcome with
    | .ok () => { exit := 0 }
    | .error e => e.report
  ({ exit := ending.exit, stdout := d.printed, stderr := log ++ ending.stderr }, d.machine)

/-- Carries out a command with its arguments. -/
def runCommand (style : Style) (m : Machine) (i : Invocation) (c : Command) (args : List Text) :
    Report × Machine :=
  match readArguments (Command.flags (some c)) args {} with
  | .error e => ((CommandError.flag e).report, m)
  | .ok a =>
    if a.isOn "help" then ({ exit := 0, stdout := usage }, m)
    else match prepare m i a with
      | .error e => (e.report, m)
      | .ok (operand, s) => runPrepared style m i a c operand s

/-- A run of the program. -/
def Machine.run (style : Style) (m : Machine) (i : Invocation) : Report × Machine :=
  match Command.find i.arguments with
  | .run c args => runCommand style m i c args
  | .usage args => (runUsage args, m)
  | .unknown word => ((CommandError.unknown word).report, m)

end Population
