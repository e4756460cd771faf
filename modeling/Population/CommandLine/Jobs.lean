import Population.CommandLine.Machine

/-!
# Commands on jobs

Analysing a description as a job, showing a stored job, and ending one by hand.
-/

namespace Population

open Text (byte)

/-- What is found at the path of the tool; a slash behind the tool asks for a folder. -/
def Machine.behaviourAt (m : Machine) (path : Text) : External.Behaviour :=
  let found : Except FileFault External.Behaviour := do
    let t ← m.workspace.target path
    let place ← t.place
    if place = Path.clean External.defaultPath then
      return match t.closed, m.tool with
        | true, .hangs _ | true, .ends .. => .absent (.file .notFolder)
        | _, tool => tool
    let _ ← m.workspace.find path
    return .absent .forbidden
  if path = "/" then .absent .root
  else if !path.contains (byte '/') then .absent .unlisted
  else match found with
    | .ok b => b
    | .error f => .absent (.file f)

namespace Task

/-- A store that is open, and where it is kept. -/
structure OpenStore where
  store : Store
  place : StoragePlace

def openStore : Task OpenStore := do
  let s := (← settings).jobs
  if s.store = Settings.durableStore then
    let m := (← get).machine
    let storage ← lift .storage (Storage.locate m.workspace (m.stores.map (·.1)) s.dsn)
    let kept := match storage.place with
      | .transient => none
      | .kept path => m.stores.lookup path
    return ⟨.durable { kept.getD {} with readOnly := storage.readOnly }, storage.place⟩
  else return ⟨.memory { maxUpdates := s.maxUpdates.toInt }, .transient⟩

def keepStore (place : StoragePlace) (s : Store) : Task Unit :=
  match place, s with
  | .kept path, .durable d =>
    change fun m => { m with
      stores := (path, d) :: m.stores.filter fun (p, _) => p != path }
  | _, _ => return

/-- The store with the clock and the identifiers of the machine. -/
def registryOf (s : Store) : Task Registry := do
  let m := (← get).machine
  return ⟨s, m.clock, m.drawn⟩

/-- Takes over what a service leaves behind. -/
def takeOver (place : StoragePlace) (s : Service) : Task Unit := do
  modify fun d => { d with logs := d.logs ++ s.logs, metrics := s.metrics }
  change fun m => { m with
    workspace := s.workspace, clock := s.registry.clock, drawn := s.registry.drawn }
  keepStore place s.registry.store

def updateText (u : Progress) : Text :=
  Text.cat
    [(Text.ofInt u.seq).padLeft 4, " ", u.kind.text.padRight 7, " ", u.message, "\n"]

/-- The lines about events; a job is named before its first one. -/
def eventsText (current : Text) : List Event → Text
  | [] => []
  | e :: rest =>
    (if e.job = current then [] else Text.cat ["job ", e.job, "\n"]) ++ updateText e.update ++
      eventsText e.job rest

def oracleOf (s : OracleSettings) : Task Oracle := do
  let inner ←
    if s.kind = External.name then
      let tool := External.Tool.make s.path s.timeout (.absent .unlisted)
      let behaviour := (← get).machine.behaviourAt tool.path
      pure (Oracle.external { tool with behaviour })
    else if s.kind = Explicit.name then pure (Oracle.explicit s.maxStates.toInt)
    else throw (.unknownOracle s.kind)
  return if s.attempts ≤ 1 then inner else inner.retrying s.attempts.toInt s.backoff

/-- The service for an analysis, with a subscription to all events. -/
def serviceFor (s : Settings) (oracle : Oracle) (store : Store) : Task Service := do
  let (id, registry) := (← registryOf store).draw
  return {
    options := AnalysisOptions.withDefaults
      ⟨s.instanceBound, s.maxConcurrency.toInt, s.deduplicate, s.workDir, s.jobs.ttl.toInt⟩
    oracle, registry
    bus := (({} : Bus).subscribe id allJobs (some .listen)).toOption
    workspace := (← get).machine.workspace }

def verdictOf (job : Job) : Text :=
  (job.result.map (·.verdict)).getD []

/-- Analyses a description and prints the updates and the verdict. -/
def check (path : Text) : Task Unit := do
  let t ← readFile path
  let a ← arguments
  let s ← settings
  let s := { s with
    oracle := { s.oracle with kind := (a.text? "oracle").getD s.oracle.kind }
    workDir := (a.text? "work-dir").getD s.workDir }
  let oracle ← oracleOf s.oracle
  let opened ← openStore
  let service ← serviceFor s oracle opened.store
  let start := service.registry.now
  let (outcome, service) := service.perform .unlimited (Act.checkText t)
  takeOver opened.place service
  print [eventsText [] ((service.bus.getD {}).delivered.map (·.event))]
  let job ← lift .service outcome
  let verdict := verdictOf job
  if verdict.isEmpty then throw (.unfinished job.id job.status)
  let took := Int64.ofInt (service.registry.now - start)
  print [verdict, " in ", (← get).style.duration took, "\n"]
  if verdict = Verdict.violated.text then throw (.verdict .violated)
  if verdict = Verdict.inconclusive.text then throw (.verdict .inconclusive)

/-- Refuses to go on without a store that outlives the run. -/
def requireDurable : Task Unit := do
  if (← settings).jobs.store ≠ Settings.durableStore then throw .notDurable

def status (id : Text) : Task Unit := do
  requireDurable
  let opened ← openStore
  keepStore opened.place opened.store
  let job ← lift .store (opened.store.get true id)
  let since := ((← arguments).integer? "since").getD 0
  let updates ← lift .store (opened.store.updates true job.id since)
  print ["job ", job.id, " ", job.status.text, " (created ", (← get).style.time job.created,
    ")\n", updates.flatMap updateText]
  let verdict := verdictOf job
  if !verdict.isEmpty then print ["verdict: ", verdict, "\n"]

def complete (id : Text) : Task Unit := do
  requireDurable
  let opened ← openStore
  let service : Service :=
    { options := AnalysisOptions.withDefaults ⟨0, 0, false, [], 0⟩
      oracle := .explicit 0
      registry := ← registryOf opened.store
      workspace := (← get).machine.workspace }
  let (outcome, service) := service.perform .unlimited (Act.completeByHand id)
  takeOver opened.place { service with metrics := (← get).metrics }
  lift .service outcome
  print ["job ", id, " completed\n"]

end Task

end Population
