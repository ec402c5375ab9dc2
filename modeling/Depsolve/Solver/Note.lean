import Depsolve.Job
import Depsolve.Problem
import Depsolve.Solver.Repair
/-!
# What a solver reports

The problem that a failure amounts to, and the notes on the progress of a run.
-/
namespace Depsolve

def Obstacle.message (job : Job) : Obstacle → String
  | .everyMatchRemoved => s!"cannot install {job.spec}: every match is removed by another request"
  | .noneInstalled => s!"cannot erase {job.spec}: no matching package is installed"
  | .onlyAvailable =>
    s!"cannot {job.kind.text} {job.spec}: package is available, but not installed"
  | .lowestInstalled =>
    s!"cannot downgrade {job.spec}: the lowest available version is already installed"
  | .noneInstalledToMark => s!"cannot change reason of {job.spec}: no matching package is installed"
  | .noCandidate => "no candidate to try"

def Failure.problem (u : Universe) (job : Job) (maxSteps : Nat) (e : Failure) : Problem :=
  let context := s!"cannot {job.kind.text} {job.spec}"
  let name (id : PackageId) : String := (u.get id).nevra
  match e with
  | .missing package d true =>
    { kind := .unresolvable
      message := s!"{context}: {name package} requires {d.text}, but none of the providers " ++
        "can be installed"
      packages := [package]
      dependency := some d.text }
  | .missing package d false =>
    { kind := .unresolvable
      message := s!"{context}: nothing provides {d.text} needed by {name package}"
      packages := [package]
      dependency := some d.text }
  | .conflict package other =>
    { kind := .conflict
      message := s!"{context}: {name package} conflicts with {name other}"
      packages := [package, other] }
  | .guarded id =>
    { kind := .guarded
      message := s!"{context}: the operation would result in removing the protected package " ++
        name id
      packages := [id] }
  | .pinned id =>
    { kind := .jobConflict
      message := s!"{context}: {name id} is required by another request and cannot be replaced"
      packages := [id] }
  | .forbidden id =>
    { kind := .jobConflict
      message := s!"{context}: {name id} is removed by another request"
      packages := [id] }
  | .notApplicable obstacle => { kind := .notApplicable, message := obstacle.message job }
  | .stepLimit =>
    { kind := .stepLimit
      message := s!"{context}: dependency search gave up after {maxSteps} steps" }

/-- A step of a run that is worth telling. -/
inductive Note where
  | noMatch (job : Job)
  | contradicted (job : Job) (names : List String) (erase : Job)
  | done (job : Job) (steps : Nat)
  | passedOver (job : Job) (problem : Problem)
  | failed (job : Job) (problem : Problem)
  | keeping (p : Package)
  | removing (p : Package)
deriving DecidableEq

def Note.text : Note → String
  | .noMatch job => s!"job {job.text}: skipped, no match"
  | .contradicted job names erase =>
    let names := ", ".intercalate names
    s!"job {job.text}: skipped, {names} is erased by \"{erase.text}\""
  | .done job steps => s!"job {job.text}: done in {steps} step(s)"
  | .passedOver job problem => s!"job {job.text}: skipped, {problem.message}"
  | .failed job problem => s!"job {job.text}: {problem.message}"
  | .keeping p => s!"keeping {p.nevra}: no replacement is installable"
  | .removing p => s!"removing unneeded dependency {p.nevra}"

end Depsolve
