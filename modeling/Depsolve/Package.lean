import Depsolve.Dependency
import Depsolve.Text.Keyword
/-!
# Packages

A package record, the reason it is on the system, and the relations between two
packages that follow from their dependencies.
-/
namespace Depsolve

/-- The place of a package in the universe it belongs to. -/
abbrev PackageId := Nat

inductive Reason where
  | unknown
  | dependency
  | user
  | clean
  | weakDependency
  | group
deriving DecidableEq, Inhabited

namespace Reason

def text : Reason → String
  | .unknown => "unknown"
  | .dependency => "dependency"
  | .user => "user"
  | .clean => "clean"
  | .weakDependency => "weak-dependency"
  | .group => "group"

def parse? (s : String) : Option Reason :=
  match keyword (trim s) with
  | "unknown" => some .unknown
  | "dependency" | "dep" => some .dependency
  | "user" => some .user
  | "clean" => some .clean
  | "weak-dependency" | "weak" => some .weakDependency
  | "group" => some .group
  | _ => none

end Reason

structure Package where
  id : PackageId
  name : String
  evr : Evr
  arch : String
  repo : String
  installed : Bool
  provides : List Dependency
  requires : List Dependency
  conflicts : List Dependency
  obsoletes : List Dependency
  /-- Meaningful for installed packages only. -/
  reason : Reason
deriving DecidableEq, Inhabited

namespace Package

def isNoarch (p : Package) : Bool := p.arch == "noarch"

/-- `name-[epoch:]version-release.arch` -/
def nevra (p : Package) : String := s!"{p.name}-{p.evr.text}.{p.arch}"

/-- `name-epoch:version-release.arch`, the epoch written even when it is zero. -/
def fullNevra (p : Package) : String :=
  s!"{p.name}-{p.evr.epoch.toNat}:{p.evr.version}-{p.evr.release}.{p.arch}"

/-- Two builds that are interchangeable, whatever repository they come from. -/
def sameNevra (p q : Package) : Bool :=
  p.name == q.name && p.arch == q.arch && p.evr.same q.evr

/-- Every package provides its own name in its own version. -/
def selfProvide (p : Package) : Dependency :=
  { name := p.name, constraint := some (.eq, p.evr) }

def providesDep (p : Package) (d : Dependency) : Bool := p.provides.any fun x => d.overlaps x

def obsoletesPackage (p q : Package) : Bool :=
  p.obsoletes.any fun o => o.name == q.name && o.matchesEvr q.evr

def conflictsWith (p q : Package) : Bool := p.conflicts.any fun c => q.providesDep c

/-- Architectures that can replace each other: equal, or one of them without architecture. -/
def sameArchFamily (p q : Package) : Bool := p.arch == q.arch || p.isNoarch || q.isNoarch

end Package

end Depsolve
