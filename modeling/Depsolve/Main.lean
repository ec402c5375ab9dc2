import Depsolve.CommandLine.Run
/-!
# The program

Collects the variables and files that a command needs, and runs it.
-/
namespace Depsolve

def knownVariables : List String :=
  ["HOME", "XDG_CONFIG_HOME", "RPMSOLVE_CONFIG_DIR"] ++
    SettingKey.all.map fun k => Environment.varName k.text

def readEnvironment : IO Environment :=
  knownVariables.filterMapM fun name => do
    let value ← IO.getEnv name
    pure (value.map fun v => (name, v))

/-- What stands at a path that could not be read. -/
def contentOfError : IO.Error → FileContent
  | .noFileOrDirectory .. => .missing
  | .inappropriateType _ 20 details => .missing s!"{details} (os error 20)"
  | .invalidArgument _ 36 details => .missing s!"{details} (os error 36)"
  | .inappropriateType _ code details => .unreadable s!"{details} (os error {code})"
  | .permissionDenied _ code details => .unreadable s!"{details} (os error {code})"
  | e => .unreadable (toString e)

def readContent (path : String) : IO FileContent := do
  try
    match String.fromUTF8? (← IO.FS.readBinFile path) with
    | some s => return .text s
    | none => return .unreadable "stream did not contain valid UTF-8"
  catch e => return contentOfError e

/-- Show the command what it may read of this machine. -/
def readHost (args : List String) : IO Host := do
  let env ← readEnvironment
  let files ← (CommandLine.paths env args).mapM fun path => do
    pure (path, ← readContent path)
  pure { env, read := fun path => (files.lookup path).getD .missing }

end Depsolve

def main (args : List String) : IO UInt32 := do
  let outcome := Depsolve.CommandLine.run (← Depsolve.readHost args) args
  IO.print outcome.out
  IO.eprint outcome.err
  return UInt32.ofNat outcome.code
