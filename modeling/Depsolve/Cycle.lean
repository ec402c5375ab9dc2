import Depsolve.Error
import Depsolve.Repository.Document
import Depsolve.Universe.Build
/-!
# Resolution cycles

A cycle goes from configuration to transaction through a fixed order of states.
Each call enters its state and then does the work of that state. An unsatisfiable
goal may be built again; any other error ends the cycle in failure, which only
starting over leaves.
-/
namespace Depsolve

/-- What the machine shows to a cycle: its variables and its files. -/
structure Host where
  env : Environment := []
  read : String → FileContent := fun _ => .missing

/-- Where the configuration of a cycle comes from. -/
structure CycleOptions where
  /-- Read this file instead of the one in the default place. -/
  configPath : Option String := none
  /-- Let variables override the file. -/
  useEnvironment : Bool := false
  /-- Use this configuration and read nothing. -/
  preset : Option Config := none

/-- Carries out a plan: fetches its files, tests it, and changes the system. -/
structure Executor where
  download : Universe → Plan → Except ResolveError Unit := fun _ _ => .ok ()
  test : Universe → Plan → Except ResolveError Unit := fun _ _ => .ok ()
  execute : Universe → Plan → Except ResolveError Unit

structure Cycle where
  options : CycleOptions := {}
  state : CycleState := .init
  /-- The states visited since the start. -/
  history : List CycleState := [.init]
  /-- The generation of the next universe. -/
  generation : Nat := 1
  config : Config := {}
  solver : Solver := Settings.solver {}
  /-- Fetched repositories, until the universe is built. -/
  metadata : List Repository := []
  pool : Option Universe := none
  goal : Option Goal := none
  plan : Option Plan := none
  /-- The problems of the last resolution, if that was unsatisfiable. -/
  problems : ProblemSet := []
  executed : Bool := false

structure Turn (α : Type) where
  cycle : Cycle
  result : Except ResolveError α
  records : List LogRecord := []
  /-- What an executor was given. -/
  handed : Option (Universe × Plan) := none

namespace Turn

variable {α : Type}

/-- Put records in front of those of a turn. -/
def after (records : List LogRecord) (t : Turn α) : Turn α :=
  { t with records := records ++ t.records }

end Turn

namespace Cycle

variable {α : Type}

def record (level : LogLevel) (message : String) : LogRecord :=
  ⟨level, "rpmsolve::resolver", message⟩

def demands (c : Cycle) : Demands := c.config.settings.demands

def hasGoodPlan (c : Cycle) : Bool := c.plan.any Plan.isSuccess

/-- The next state, where downloading takes a good plan; or, without a good plan, back from
resolving to building. -/
def canEnter (c : Cycle) (target : CycleState) : Bool :=
  if c.state.next? = some target then target != .downloadPackages || c.hasGoodPlan
  else c.state == .resolveTransaction && target == .buildTransaction && !c.hasGoodPlan

def entering (c : Cycle) (target : CycleState) (work : Cycle → Turn α) : Turn α :=
  if c.canEnter target then
    (work { c with state := target, history := c.history ++ [target] }).after
      [record .debug s!"{c.state.text} -> {target.text}"]
  else { cycle := c, result := .error (.transition c.state target) }

def fail (c : Cycle) (e : ResolveError) : Turn α where
  cycle := {
    c with
    state := .failed
    history := c.history ++ [.failed]
    metadata := []
    pool := none
    goal := none
    plan := none }
  result := .error e
  records := [record .error s!"{c.state.text} failed: {e.message}"]

def succeed (c : Cycle) (a : α) : Turn α := { cycle := c, result := .ok a }

def configFor (o : CycleOptions) (host : Host) : Except ConfigError Config :=
  match o.preset with
  | some config => .ok config
  | none =>
    let reader : EnvironmentReader := { enabled := o.useEnvironment, env := host.env }
    let path := o.configPath.getD reader.configFile
    Config.build reader path (host.read path)

def loadConfig (c : Cycle) (host : Host) : Turn Unit :=
  c.entering .loadConfig fun c =>
    match configFor c.options host with
    | .ok config => { c with config, solver := config.settings.solver }.succeed ()
    | .error e => c.fail (.config e)

def fetchAll (cache : CacheLevel) : List Source →
    List LogRecord × Except LoadError (List Repository)
  | [] => ([], .ok [])
  | s :: rest =>
    match s.fetch cache with
    | .error e => ([], .error e)
    | .ok repo =>
      let (records, repos) := fetchAll cache rest
      (record .info s!"repository {repo.id}: {repo.records.length} record(s)" :: records,
        repos.map (repo :: ·))

/-- Fetch every source; one that fails ends the cycle. -/
def downloadMetadata (c : Cycle) (sources : List Source) : Turn Unit :=
  c.entering .downloadMetadata fun c =>
    let (records, repos) := fetchAll c.config.settings.cacheOnly sources
    Turn.after records <|
      match repos with
      | .ok repos => { c with metadata := repos }.succeed ()
      | .error e => c.fail (.load e)

def loadSack (c : Cycle) : Turn Unit :=
  c.entering .loadSack fun c =>
    let settings := c.config.settings
    let repos := c.metadata
    let c := { c with metadata := [] }
    match Universe.build c.generation repos settings.excludes settings.arch with
    | .error e => c.fail (.load e)
    | .ok u =>
      let c := { c with pool := some u, generation := c.generation + 1 }
      (c.entering .sackReady fun c => c.succeed ()).after
        [record .info <| s!"universe generation {u.generation}: {u.size} package(s), " ++
          s!"{u.installed.size} installed"]

/-- Open the goal for requests; after an unsatisfiable resolution it is the same goal. -/
def buildTransaction (c : Cycle) : Turn Unit :=
  c.entering .buildTransaction fun c =>
    match c.goal, c.pool with
    | some goal, _ => { c with goal := some goal.thaw, plan := none }.succeed ()
    | none, some u => { c with goal := some { pool := u } }.succeed ()
    | none, none => c.fail (.transition .loadSack .sackReady)

def addRequest (c : Cycle) (r : Request) (demands : Demands) : Turn Unit :=
  match c.goal with
  | none => { cycle := c, result := .error (.transition c.state .buildTransaction) }
  | some goal =>
    match goal.add r demands with
    | .ok (goal, records) => ({ c with goal := some goal }.succeed ()).after records
    | .error e => { cycle := c, result := .error (.goal e) }

def resetGoal (c : Cycle) : Turn Unit :=
  match c.goal with
  | none => { cycle := c, result := .error (.transition c.state .buildTransaction) }
  | some goal => { c with goal := some goal.reset }.succeed ()

/-- Solve the goal once. An unsatisfiable goal leaves a failed plan with every problem. -/
def resolve (c : Cycle) (demands : Demands) : Turn Plan :=
  c.entering .resolveTransaction fun c =>
    match c.goal with
    | none => c.fail (.transition .sackReady .buildTransaction)
    | some goal =>
      let r := goal.resolve c.solver demands
      let c := { c with goal := some r.goal }
      Turn.after r.records <|
        match r.result with
        | .ok plan =>
          ({ c with plan := some plan, problems := [] }.succeed plan).after
            [record .info s!"resolved: {plan.summary.text}"]
        | .error problems =>
          { cycle := { c with plan := some (.failed problems), problems }
            result := .error (.unsatisfiable problems)
            records := [record .warn problems.text] }

def handOver (c : Cycle) (part : Universe → Plan → Except ResolveError Unit)
    (done : Cycle → Turn Unit) : Turn Unit :=
  match c.pool, c.plan with
  | some u, some plan =>
    match part u plan with
    | .ok () => { done c with handed := some (u, plan) }
    | .error e => { c.fail e with handed := some (u, plan) }
  | _, _ => done c

def downloadPackages (c : Cycle) (x : Executor) : Turn Unit :=
  c.entering .downloadPackages fun c => c.handOver x.download (·.succeed ())

def testTransaction (c : Cycle) (x : Executor) : Turn Unit :=
  c.entering .testTransaction fun c => c.handOver x.test (·.succeed ())

def runTransaction (c : Cycle) (x : Executor) : Turn Unit :=
  c.entering .transaction fun c => c.handOver x.execute fun c =>
    ({ c with executed := true }.succeed ()).after [record .info "transaction complete"]

def takePlan (c : Cycle) : Option Plan × Cycle :=
  if c.state == .transaction && c.executed then (c.plan, { c with plan := none }) else (none, c)

/-- Start over. The options, the configuration and the solver stay. -/
def reset (c : Cycle) : Cycle :=
  { options := c.options, generation := c.generation, config := c.config, solver := c.solver }

/-- Give a cycle up between two states, and start over. -/
def abandon (c : Cycle) : Cycle × List LogRecord :=
  (c.reset, [record .info s!"abandoning cycle in {c.state.text}"])

end Cycle

end Depsolve
