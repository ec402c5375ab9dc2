import Depsolve.CommandLine.Switch
import Depsolve.Text.Numeral
/-!
# Commands

What the program can be asked to do: resolve requests, or list packages.
-/
namespace Depsolve.CommandLine

/-- An available repository: `ID=FILE` or `ID:PRIORITY=FILE`. -/
structure RepositoryArgument where
  id : String
  priority : Option Int := none
  path : String
deriving DecidableEq

def RepositoryArgument.parse? (s : String) : Option RepositoryArgument :=
  let cs := s.toList
  let head := cs.takeWhile (· != '=')
  match cs.dropWhile (· != '=') with
  | _ :: path =>
    let id := head.takeWhile (· != ':')
    if id.isEmpty || path.isEmpty then none
    else
      match head.dropWhile (· != ':') with
      | [] => some { id := String.ofList id, path := String.ofList path }
      | _ :: priority =>
        (readInt32? priority).map fun n =>
          { id := String.ofList id, priority := some n, path := String.ofList path }
  | [] => none

structure LoadOptions where
  system : Option String := none
  repos : List RepositoryArgument := []
  config : Option String := none
  noEnv : Bool := false
  excludes : List String := []
  arch : Option String := none
deriving DecidableEq

structure ResolveOptions where
  load : LoadOptions := {}
  install : List String := []
  installOptional : List String := []
  erase : List String := []
  upgrade : List String := []
  upgradeAll : Bool := false
  distroSync : List String := []
  downgrade : List String := []
  markUser : List String := []
  allowErasing : Bool := false
  best : Bool := false
  allowDowngrade : Bool := false
  noCleanDeps : Bool := false
deriving DecidableEq

structure ListOptions where
  load : LoadOptions := {}
  pattern : Option String := none
  installed : Bool := false
  available : Bool := false
  upgrades : Bool := false
  latest : Bool := false
  whatProvides : Option String := none
deriving DecidableEq

inductive Command where
  | resolve (o : ResolveOptions)
  | list (o : ListOptions)
deriving DecidableEq

variable {σ : Type}

def commonSwitches : List (Switch σ) :=
  [{ name := "verbose", letter := some 'v', repeatable := true, effect := .flag id },
    { name := "help", letter := some 'h', effect := .stop .help }]

def flag (name : String) (set : σ → σ) : Switch σ := { name, effect := .flag set }

def option (name : String) (set : String → σ → σ) : Switch σ :=
  { name, effect := .value fun v o => some (set v o) }

def listOption (name : String) (add : String → σ → σ) : Switch σ :=
  { name, repeatable := true, effect := .value fun v o => some (add v o) }

/-- The name of a file is not empty. -/
def fileOption (name : String) (letter : Option Char) (set : String → σ → σ) : Switch σ :=
  { name, letter, effect := .value fun v o => if v.isEmpty then none else some (set v o) }

/-- The shared switches of a command whose options hold the shared ones. -/
def loadSwitches (within : (LoadOptions → LoadOptions) → σ → σ) : List (Switch σ) :=
  [fileOption "system" none fun v => within fun o => { o with system := some v },
    { name := "repo", repeatable := true
      effect := .value fun v o => (RepositoryArgument.parse? v).map fun repo =>
        within (fun o => { o with repos := o.repos ++ [repo] }) o },
    fileOption "config" (some 'c') fun v => within fun o => { o with config := some v },
    flag "no-env" (within fun o => { o with noEnv := true }),
    listOption "exclude" fun v => within fun o => { o with excludes := o.excludes ++ [v] },
    option "arch" fun v => within fun o => { o with arch := some v }] ++ commonSwitches

def resolveTable : Table ResolveOptions where
  switches :=
    loadSwitches (fun f o => { o with load := f o.load }) ++
    [listOption "install" fun v o => { o with install := o.install ++ [v] },
      listOption "install-optional" fun v o => { o with installOptional := o.installOptional ++ [v] },
      listOption "erase" fun v o => { o with erase := o.erase ++ [v] },
      listOption "upgrade" fun v o => { o with upgrade := o.upgrade ++ [v] },
      flag "upgrade-all" fun o => { o with upgradeAll := true },
      listOption "distro-sync" fun v o => { o with distroSync := o.distroSync ++ [v] },
      listOption "downgrade" fun v o => { o with downgrade := o.downgrade ++ [v] },
      listOption "mark-user" fun v o => { o with markUser := o.markUser ++ [v] },
      flag "allow-erasing" fun o => { o with allowErasing := true },
      flag "best" fun o => { o with best := true },
      flag "allow-downgrade" fun o => { o with allowDowngrade := true },
      flag "no-clean-deps" fun o => { o with noCleanDeps := true }]

def listTable : Table ListOptions where
  switches :=
    loadSwitches (fun f o => { o with load := f o.load }) ++
    [flag "installed" fun o => { o with installed := true },
      flag "available" fun o => { o with available := true },
      flag "upgrades" fun o => { o with upgrades := true },
      flag "latest" fun o => { o with latest := true },
      option "whatprovides" fun v o => { o with whatProvides := some v }]
  positional v o := if o.pattern.isNone then some { o with pattern := some v } else none

/-- Installed packages are neither available ones nor upgrades. -/
def ListOptions.check (o : ListOptions) : Except Stop ListOptions :=
  if o.installed && (o.available || o.upgrades) then .error .misuse else .ok o

/-- The switches in front of the name of the command. -/
def leadingTable : Table Unit where
  switches :=
    { name := "version", letter := some 'V', effect := .stop .version } :: commonSwitches

namespace Command

def helpAbout (names : List String) : Stop :=
  match names with
  | [] | ["resolve"] | ["list"] | ["help"] => .help
  | _ => .misuse

def parseNamed (name : String) (args : List String) : Except Stop Command :=
  match name with
  | "resolve" => (resolveTable.read args {}).map .resolve
  | "list" => (listTable.read args {}).bind fun o => o.check.map .list
  | "help" => .error (helpAbout args)
  | _ => .error .misuse

def parseFrom (r : Reading Unit) : List String → Except Stop Command
  | [] => .error .misuse
  | arg :: rest =>
    if arg == "--" then .error .misuse
    else if isSwitch arg then
      match leadingTable.readSwitch arg r with
      | .error s => .error s
      | .ok (_, r) => parseFrom r rest
    else parseNamed arg rest

def parse (args : List String) : Except Stop Command := parseFrom { options := () } args

end Command

end Depsolve.CommandLine
