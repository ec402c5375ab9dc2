import Depsolve.CommandLine.Command
import Depsolve.Cycle
/-!
# Running a command

A command is run against what the host shows, and its outcome is an exit code
with the texts of the two output streams.
-/
namespace Depsolve.CommandLine

structure Outcome where
  code : Nat
  out : String := ""
  err : String := ""
deriving DecidableEq

inductive Abort where
  | configuration (e : ConfigError)
  | metadata (e : ResolveError)
  | pattern (text : String) (e : SelectorError)
  | dependency (text : String) (e : EvrError)
  | resolve (e : ResolveError)

def Abort.message : Abort → String
  | .configuration e => s!"Failed to load configuration: {e.message}"
  | .metadata e => s!"Failed to load repository metadata: {e.message}"
  | .pattern text e => s!"Invalid package pattern \"{text}\": {e.message}"
  | .dependency text e => s!"Invalid dependency \"{text}\": {e.message}"
  | .resolve e => e.message

namespace LoadOptions

/-- The files of repositories, the installed system first. -/
def sources (o : LoadOptions) (host : Host) : List Source :=
  let source (id path : String) (priority : Option Int) : Source :=
    { id, priority := priority.getD defaultPriority, content := .document path (host.read path) }
  (match o.system with | some path => [source systemRepository path none] | none => []) ++
    o.repos.map fun r => source r.id r.path r.priority

/-- The configuration with the excludes and the architecture of the command line. -/
def configuration (o : LoadOptions) (host : Host) : Except ConfigError Config :=
  let options : CycleOptions := { configPath := o.config, useEnvironment := !o.noEnv }
  (Cycle.configFor options host).map fun c =>
    let excludes := c.settings.excludes ++ o.excludes
    { c with settings := { c.settings with excludes, arch := o.arch <|> c.settings.arch } }

/-- Run a cycle until its universe is built. -/
def load (o : LoadOptions) (host : Host) : Except Abort Cycle := do
  let config ← (o.configuration host).mapError .configuration
  let t := Cycle.loadConfig { options := { preset := some config } } host
  t.result.mapError .resolve
  let t := t.cycle.downloadMetadata (o.sources host)
  t.result.mapError .metadata
  let t := t.cycle.loadSack
  t.result.mapError .resolve
  pure t.cycle

end LoadOptions

def lines (ls : List String) : String := String.join (ls.map (· ++ "\n"))

/-- Pad a text with spaces to a number of characters. -/
def padTo (width : Nat) (s : String) : String := s.pushn ' ' (width - s.length)

namespace ResolveOptions

def selectors (patterns : List String) : Except Abort (List Selector) :=
  patterns.mapM fun p => (Selector.parse p).mapError (.pattern p)

/-- The requests by kind, in a fixed order of kinds. -/
def requests (o : ResolveOptions) : Except Abort (List Request) := do
  let install ← selectors o.install
  let installOptional ← selectors o.installOptional
  let erase ← selectors o.erase
  let upgrade ← selectors o.upgrade
  let distroSync ← selectors o.distroSync
  let downgrade ← selectors o.downgrade
  let markUser ← selectors o.markUser
  pure <| install.map .install ++ installOptional.map .installOptional ++ erase.map .erase ++
    upgrade.map .upgrade ++ (if o.upgradeAll then [.upgradeAll] else []) ++
    distroSync.map .distroSync ++ downgrade.map .downgrade ++
    markUser.map (.reasonChange · .user)

def demands (o : ResolveOptions) (base : Demands) : Demands where
  allowErasing := base.allowErasing || o.allowErasing
  best := base.best || o.best
  cacheLevel := base.cacheLevel
  allowDowngrade := base.allowDowngrade || o.allowDowngrade
  cleanDeps := base.cleanDeps && !o.noCleanDeps

end ResolveOptions

def addRequests (demands : Demands) : List Request → Cycle → Except ResolveError Cycle
  | [], c => .ok c
  | r :: rest, c =>
    let t := c.addRequest r demands
    match t.result with
    | .ok () => addRequests demands rest t.cycle
    | .error e => .error e

def operationDetail (u : Universe) (op : Operation) : String :=
  match op.kind, op.replaced with
  | .obsolete, some new =>
    let name := (u.get new).nevra
    s!" (obsoleted by {name})"
  | .reasonChange, _ =>
    let old := (u.get op.package).reason
    s!" ({old.text} -> {op.reason.text})"
  | _, some old =>
    let build := (u.get old).evr
    s!" (replacing {build.text})"
  | _, none => ""

def operationLine (u : Universe) (op : Operation) : String :=
  let p := u.get op.package
  s!"  {padTo 14 op.kind.text} {p.nevra} {p.repo}" ++ operationDetail u op

def planLines (u : Universe) (plan : Plan) : List String :=
  if plan.isEmpty then ["Nothing to do."]
  else
    "Transaction:" :: plan.operations.map (operationLine u) ++ ["", plan.summary.text]

def resolve (o : ResolveOptions) (host : Host) : Except Abort Outcome := do
  let loaded ← o.load.load host
  let t := loaded.buildTransaction
  t.result.mapError .resolve
  let demands := o.demands t.cycle.demands
  let requests ← o.requests
  let c ← (addRequests demands requests t.cycle).mapError .resolve
  match (c.resolve demands).result with
  | .ok plan => pure { code := 0, out := lines (planLines (c.pool.getD default) plan) }
  | .error (.unsatisfiable problems) =>
    pure { code := 1, err := lines [s!"Error: {problems.text}", problems.describe] }
  | .error e => .error (.resolve e)

/-- The packages that the options of a listing leave. -/
def listing (o : ListOptions) (u : Universe) : Except Abort Query := do
  let keep (wanted : Bool) (f : Filter) (q : Query) : Query := if wanted then q.filter f else q
  let q := Query.considered u
  let q := match o.pattern with | some p => q.filter (.name (.glob (Glob.compile p))) | none => q
  let q ←
    match o.whatProvides with
    | some text => do
      let d ← (Dependency.parse text).mapError (.dependency text)
      pure (q.filter (.provides d))
    | none => pure q
  pure <| keep o.latest .latest <| keep o.upgrades .upgrades <|
    keep o.available (.installed false) <| keep o.installed (.installed true) q

/-- Identities in one column, as wide as the longest of them in bytes. -/
def listLines (u : Universe) (ids : List PackageId) : List String :=
  let width := (ids.map fun id => (u.get id).nevra.utf8ByteSize).foldl max 0
  ids.map fun id => padTo width (u.get id).nevra ++ "  " ++ (u.get id).repo

def list (o : ListOptions) (host : Host) : Except Abort Outcome := do
  let c ← o.load.load host
  let u := c.pool.getD default
  let q ← listing o u
  match q.sorted with
  | [] => pure { code := 1, err := lines ["No matching packages"] }
  | ids => pure { code := 0, out := lines (listLines u ids) }

def Command.run (host : Host) : Command → Outcome
  | .resolve o => finish (CommandLine.resolve o host)
  | .list o => finish (CommandLine.list o host)
where
  finish : Except Abort Outcome → Outcome
    | .ok outcome => outcome
    | .error e => { code := 1, err := lines [s!"Error: {e.message}"] }

def usage : String :=
  "Usage: rpmsolve [-v]... resolve [OPTIONS]\n" ++
  "       rpmsolve [-v]... list [OPTIONS] [PATTERN]\n"

def Stop.outcome : Stop → Outcome
  | .misuse => { code := 2, err := usage }
  | .help => { code := 0, out := usage }
  | .version => { code := 0, out := "rpmsolve 0.1.0\n" }

def run (host : Host) (args : List String) : Outcome :=
  match Command.parse args with
  | .ok command => command.run host
  | .error stop => stop.outcome

/-- The options of a command that name files. -/
def Command.loadOptions : Command → LoadOptions
  | .resolve o => o.load
  | .list o => o.load

def paths (env : Environment) (args : List String) : List String :=
  match Command.parse args with
  | .error _ => []
  | .ok command =>
    let o := command.loadOptions
    let reader : EnvironmentReader := { enabled := !o.noEnv, env }
    o.config.getD reader.configFile :: o.system.toList ++ o.repos.map RepositoryArgument.path

end Depsolve.CommandLine
