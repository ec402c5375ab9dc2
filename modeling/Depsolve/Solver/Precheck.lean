import Depsolve.Solver.CarryOut
/-!
# Problems visible before the search

Jobs that match nothing, requests that contradict each other and requests to
erase protected packages are found without a search. The jobs concerned are left out.
-/
namespace Depsolve

structure Precheck where
  /-- Places of the jobs that are left out. -/
  skipped : IdSet := .empty
  problems : List Problem := []
  notes : List Note := []

namespace Precheck

/-- Leave a job out and report it. -/
def refuse (c : Precheck) (index : Nat) (p : Problem) : Precheck :=
  { c with skipped := c.skipped.insert index, problems := c.problems ++ [p] }

/-- Leave an optional job out and note it. -/
def passOver (c : Precheck) (index : Nat) (n : Note) : Precheck :=
  { c with skipped := c.skipped.insert index, notes := c.notes ++ [n] }

end Precheck

namespace Search

variable (s : Search)

def checkMatch (c : Precheck) (index : Nat) (job : Job) : Precheck :=
  if job.kind == .guard || job.target == .all || !(s.candidates job).isEmpty then c
  else if job.optional then c.passOver index (.noMatch job)
  else c.refuse index { kind := .noMatch, message := s!"No match for argument: {job.spec}" }

def contradiction (wanted erase : Job) (names : List String) : Problem where
  kind := .jobConflict
  message := s!"conflicting requests: \"{wanted.text}\" and \"{erase.text}\" both involve " ++
    ", ".intercalate names
  packages := (s.candidates erase).filter fun id => names.contains (s.get id).name

/-- Compare a job that wants packages with every erase job. An optional job gives way to the
first that contradicts it; otherwise both jobs are refused. -/
def checkAgainst (index : Nat) (wanted : Job) : List (Nat × Job) → Precheck → Precheck
  | [], c => c
  | (j, erase) :: rest, c =>
    if erase.kind != .erase || c.skipped.contains j then checkAgainst index wanted rest c
    else
      let erased := s.candidateNames erase
      let names := (s.candidateNames wanted).filter erased.contains
      if names.isEmpty then checkAgainst index wanted rest c
      else if wanted.optional then c.passOver index (.contradicted wanted names erase)
      else
        let c := c.refuse index (s.contradiction wanted erase names)
        checkAgainst index wanted rest { c with skipped := c.skipped.insert j }

def checkContradictions (jobs : List (Nat × Job)) (c : Precheck) (index : Nat) (job : Job) :
    Precheck :=
  if !job.kind.installLike || c.skipped.contains index then c
  else s.checkAgainst index job jobs c

def checkGuarded (c : Precheck) (index : Nat) (job : Job) : Precheck :=
  let hit := (s.candidates job).filter s.guarded.contains
  if job.kind != .erase || c.skipped.contains index || hit.isEmpty then c
  else
    let names := ", ".intercalate (hit.map fun id => (s.get id).nevra)
    c.refuse index {
      kind := .guarded
      message := s!"cannot {job.text}: the operation would result in removing the protected " ++
        s!"package(s) {names}"
      packages := hit }

def precheck (jobs : List Job) : Precheck :=
  let numbered := jobs.zipIdx.map fun p => (p.2, p.1)
  let c := numbered.foldl (fun c p => s.checkMatch c p.1 p.2) {}
  let c := numbered.foldl (fun c p => s.checkContradictions numbered c p.1 p.2) c
  numbered.foldl (fun c p => s.checkGuarded c p.1 p.2) c

end Search

end Depsolve
