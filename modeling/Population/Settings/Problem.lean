import Population.Oracle.Basic
import Population.Settings.Basic

/-!
# Problems with settings

Settings are checked as a whole, and every problem is reported.
-/

namespace Population.Settings

/-- What is wrong with a setting. -/
inductive Problem where
  | negative (key got : Text)
  | belowOne (key got : Text)
  /-- A duration is zero or negative. -/
  | notPositive (key got : Text)
  /-- A setting is empty although another one asks for it. -/
  | required (key user : Text)
  | unknown (key got : Text)
  | level (got : Text) (fault : LevelFault)
  deriving DecidableEq

def Problem.message : Problem → Text
  | negative key got => Text.cat [key, " must not be negative, got ", got]
  | belowOne key got => Text.cat [key, " must be at least 1, got ", got]
  | notPositive key got => Text.cat [key, " must be positive, got ", got]
  | required key user => Text.cat [key, " is required for the ", user]
  | unknown key got => Text.cat ["unknown ", key, " ", got.quote]
  | level got fault => Level.faultMessage got fault

/-- A problem where a condition holds. -/
def problemIf (condition : Bool) (p : Problem) : List Problem :=
  if condition then [p] else []

def oracleProblems (o : OracleSettings) : List Problem :=
  if o.kind = External.name then
    problemIf o.path.isEmpty (.required "oracle.path" "its oracle")
  else problemIf (o.kind ≠ Explicit.name) (.unknown "oracle.kind" o.kind)

def storeProblems (j : JobSettings) : List Problem :=
  if j.store = durableStore then
    problemIf j.dsn.isEmpty (.required "jobs.dsn" "sqlite store")
  else problemIf (j.store ≠ memoryStore) (.unknown "jobs.store" j.store)

def levelProblems (t : Text) : List Problem :=
  match Level.read t with
  | .ok _ => []
  | .error fault => [.level t fault]

def problems (s : Settings) : List Problem :=
  [problemIf (s.instanceBound < 0) (.negative "instance_bound" (Text.ofInt64 s.instanceBound)),
    problemIf (s.maxConcurrency < 1) (.belowOne "max_concurrency" (Text.ofInt64 s.maxConcurrency)),
    oracleProblems s.oracle,
    problemIf (s.oracle.workers < 1) (.belowOne "oracle.workers" (Text.ofInt64 s.oracle.workers)),
    problemIf (s.oracle.timeout ≤ 0) (.notPositive "oracle.timeout" s.oracle.timeout.text),
    problemIf (s.oracle.attempts < 1)
      (.belowOne "oracle.attempts" (Text.ofInt64 s.oracle.attempts)),
    problemIf (s.oracle.backoff < 0) (.negative "oracle.backoff" s.oracle.backoff.text),
    storeProblems s.jobs,
    problemIf (s.jobs.ttl < 0) (.negative "jobs.ttl" s.jobs.ttl.text),
    problemIf (s.simulation.steps < 0)
      (.negative "simulation.steps" (Text.ofInt64 s.simulation.steps)),
    levelProblems s.log.level].flatten

end Population.Settings
