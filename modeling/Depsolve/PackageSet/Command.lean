import Depsolve.PackageSet
/-!
# Working with package sets

Commands on package sets that are kept under names. A combination is stored under a name
of its own or changes its first set in place.
-/
namespace Depsolve

namespace PackageSet

inductive Command (κ : Type) where
  | empty (target : κ) (generation capacity : Nat)
  | full (target : κ) (generation capacity : Nat)
  | ofIds (target : κ) (generation capacity : Nat) (ids : List Nat)
  | insert (target : κ) (id : Nat)
  | remove (target : κ) (id : Nat)
  | combine (c : Combination) (a b target : κ)
  | combineWith (c : Combination) (target b : κ)
  | complement (a target : κ)

abbrev Shelf (κ : Type) := κ → PackageSet

namespace Shelf

variable {κ : Type} [DecidableEq κ]

def put (shelf : Shelf κ) (target : κ) (s : PackageSet) : Shelf κ :=
  fun name => if name = target then s else shelf name

/-- The sets after a command, and whether it succeeded. -/
def perform (shelf : Shelf κ) : Command κ → Shelf κ × Except UniverseMismatch Unit
  | .empty target generation capacity => (shelf.put target (.empty generation capacity), .ok ())
  | .full target generation capacity => (shelf.put target (.full generation capacity), .ok ())
  | .ofIds target generation capacity ids =>
    (shelf.put target (.ofIds generation capacity ids), .ok ())
  | .insert target id => (shelf.put target ((shelf target).insert id), .ok ())
  | .remove target id => (shelf.put target ((shelf target).remove id), .ok ())
  | .combine c a b target =>
    match PackageSet.combine c (shelf a) (shelf b) with
    | .ok s => (shelf.put target s, .ok ())
    | .error e => (shelf, .error e)
  | .combineWith c target b =>
    let (s, answer) := PackageSet.combineWith c (shelf target) (shelf b)
    (shelf.put target s, answer)
  | .complement a target => (shelf.put target (shelf a).complement, .ok ())

def run (shelf : Shelf κ) (commands : List (Command κ)) : Shelf κ :=
  commands.foldl (fun shelf command => (shelf.perform command).1) shelf

end Shelf

end PackageSet

end Depsolve
