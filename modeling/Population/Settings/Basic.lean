import Population.Log.Basic
import Population.Oracle.External

/-!
# Settings

What the program can be told about its work, with the values that hold unless it is told otherwise.
-/

namespace Population

structure OracleSettings where
  kind : Text := External.name
  /-- Where the tool of the external oracle is. -/
  path : Text := External.defaultPath
  timeout : Duration := External.defaultTimeout
  /-- How many questions are asked at once. -/
  workers : Int64 := 4
  maxStates : Int64 := 100000
  /-- How often a question is asked that could not be decided. -/
  attempts : Int64 := 1
  /-- How long to wait before the second attempt. -/
  backoff : Duration := 1000000000
  deriving DecidableEq

structure JobSettings where
  store : Text := "memory"
  dsn : Text := []
  /-- How long finished jobs are kept. -/
  ttl : Duration := 3600000000000
  /-- How many updates a job keeps in memory; zero keeps all. -/
  maxUpdates : Int64 := 0
  deriving DecidableEq

structure SimulationSettings where
  steps : Int64 := 25
  seed : UInt64 := 0
  deriving DecidableEq

structure LogSettings where
  json : Bool := false
  level : Text := "info"
  deriving DecidableEq

structure Settings where
  /-- How many agents may be active at once. -/
  instanceBound : Int64 := 50
  /-- How many agents may fill one action slot. -/
  maxConcurrency : Int64 := 2
  deduplicate : Bool := false
  /-- The folder for counter systems. -/
  workDir : Text := "."
  oracle : OracleSettings := {}
  jobs : JobSettings := {}
  simulation : SimulationSettings := {}
  log : LogSettings := {}
  deriving DecidableEq

namespace Settings

def memoryStore : Text := "memory"

def durableStore : Text := "sqlite"

/-- The logger that the settings ask for; a level that cannot be read counts as the ordinary
one. -/
def logger (s : Settings) : Logger where
  json := s.log.json
  level := (Level.read s.log.level).toOption.getD .info

end Settings

end Population
