import Depsolve.Package
/-!
# Problems

Why a resolution failed. Every independent problem of one run is kept, in order.
-/
namespace Depsolve

inductive Severity where
  | error
  | warning
deriving DecidableEq

inductive ProblemKind where
  /-- A selector matched no package. -/
  | noMatch
  /-- Two jobs ask for opposite things. -/
  | jobConflict
  /-- A requirement has no provider that can be installed. -/
  | unresolvable
  /-- Two packages that would be installed together conflict. -/
  | conflict
  /-- A job would erase a protected package. -/
  | guarded
  /-- A job cannot be carried out as asked. -/
  | notApplicable
  /-- The search budget ran out. -/
  | stepLimit
deriving DecidableEq

structure Problem where
  severity : Severity := .error
  kind : ProblemKind
  message : String
  /-- The packages involved. -/
  packages : List PackageId := []
  /-- The offending dependency, as written. -/
  dependency : Option String := none
deriving DecidableEq

abbrev ProblemSet := List Problem

namespace ProblemSet

def text (ps : ProblemSet) : String := s!"{ps.length} problem(s) found"

def numbered : Nat → List Problem → List String
  | _, [] => []
  | n, p :: ps => s!"  Problem {n}: {p.message}" :: numbered (n + 1) ps

def describe (ps : ProblemSet) : String := "\n".intercalate (ps.text :: numbered 1 ps)

end ProblemSet

end Depsolve
