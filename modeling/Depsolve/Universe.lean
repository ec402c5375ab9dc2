import Depsolve.PackageSet
import Depsolve.Repository
import Depsolve.Sort
import Depsolve.Universe.Index
/-!
# The universe of packages

Every installed and available package of one resolution cycle, addressed by
identifier and indexed by name and by provided capability.
-/
namespace Depsolve

/-- The indexes and the set of installed packages follow from the packages. -/
structure Universe where
  generation : Nat
  packages : Array Package
  nameIndex : NameIndex
  provideIndex : NameIndex
  /-- Repositories with their priorities, in the order in which their packages are numbered. -/
  repositories : List (String × Int)
  installed : PackageSet
  /-- The packages that no exclude hides. -/
  considered : PackageSet
  nativeArch : Option String
  /-- Identifiers are places. -/
  ids : packages.toList.map Package.id = List.range packages.size
  nameIndex_eq : nameIndex = NameIndex.ofPackages (fun p => [p.name]) packages.toList
  provideIndex_eq :
    provideIndex = NameIndex.ofPackages (fun p => p.provides.map Dependency.name) packages.toList
  installed_eq :
    installed = PackageSet.ofIds generation packages.size
      ((packages.toList.filter Package.installed).map Package.id)
  considered_generation : considered.generation = generation
  considered_capacity : considered.capacity = packages.size
  /-- An exclude hides available packages only. -/
  installed_considered : ∀ id ∈ installed, id ∈ considered

instance : Inhabited Universe where
  default := {
    generation := 0
    packages := #[]
    nameIndex := []
    provideIndex := []
    repositories := []
    installed := .empty 0 0
    considered := .empty 0 0
    nativeArch := none
    ids := rfl
    nameIndex_eq := rfl
    provideIndex_eq := rfl
    installed_eq := rfl
    considered_generation := rfl
    considered_capacity := rfl
    installed_considered := fun _ h => h }

namespace Universe

def size (u : Universe) : Nat := u.packages.size

def get (u : Universe) (id : PackageId) : Package := u.packages.getD id default

def emptySet (u : Universe) : PackageSet := .empty u.generation u.size

def fullSet (u : Universe) : PackageSet := .full u.generation u.size

def available (u : Universe) : PackageSet := u.installed.complement

def byName (u : Universe) (name : String) : List PackageId := u.nameIndex.find name

def installedByName (u : Universe) (name : String) : List PackageId :=
  (u.byName name).filter fun id => (u.get id).installed

def whatProvides (u : Universe) (d : Dependency) : List PackageId :=
  (u.provideIndex.find d.name).filter fun id => (u.get id).providesDep d

/-- Whether any package is named, or provides, `name`. -/
def knows (u : Universe) (name : String) : Bool :=
  u.nameIndex.knows name || u.provideIndex.knows name

def arches (u : Universe) : List String :=
  (sortCmp compare (u.packages.toList.map Package.arch)).eraseReps

def repoPriority (u : Universe) (repo : String) : Int :=
  (u.repositories.lookup repo).getD defaultPriority

/-- Name, build, architecture, repository priority and identifier, in this order. -/
def comparePackages (u : Universe) (a b : PackageId) : Ordering :=
  let p := u.get a
  let q := u.get b
  (compare p.name q.name).then <| (p.evr.compare q.evr).then <| (compare p.arch q.arch).then <|
    (compare (u.repoPriority p.repo) (u.repoPriority q.repo)).then <| compare a b

/-- Name, then identifier. -/
def compareNames (u : Universe) (a b : PackageId) : Ordering :=
  (compare (u.get a).name (u.get b).name).then (compare a b)

end Universe

end Depsolve
