import Depsolve.Universe.Build
/-!
# Sample universes

Universes of one system repository and one other, from records that name little
more than a package and its version.
-/
namespace Depsolve

/-- A record without architecture, in its first release. -/
def Record.noarch (name version : String) (fields : List (String × String) := []) : Record :=
  [("name", name), ("version", version), ("release", "1"), ("arch", "noarch")] ++ fields

theorem eq_ok_of_toOption {ε α : Type} {x : Except ε α} {a : α} (h : x.toOption = some a) :
    x = .ok a := by
  cases x with
  | error e => cases h
  | ok b => exact congrArg Except.ok (Option.some.inj h)

namespace Universe

/-- The universe of installed and of available packages, numbered in this order. -/
def ofRecords (installed available : List Record) : Except LoadError Universe :=
  build 1 [⟨systemRepository, defaultPriority, true, installed⟩,
    ⟨"base", defaultPriority, false, available⟩]

/-- The universe that records make if they are well-formed. -/
def sample (installed available : List Record)
    (h : (ofRecords installed available).toOption.isSome = true) : Universe :=
  (ofRecords installed available).toOption.get h

end Universe

end Depsolve
