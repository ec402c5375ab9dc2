import Depsolve.Package
/-!
# Indexes by name

An index lists for each name the identifiers filed under it, in ascending order
when they are filed from the highest down.
-/
namespace Depsolve

abbrev NameIndex := List (String × List PackageId)

namespace NameIndex

/-- File an identifier in front of those filed before; the same one twice in a row counts once. -/
def file (name : String) (id : PackageId) : NameIndex → NameIndex
  | [] => [(name, [id])]
  | (n, ids) :: rest =>
    if n = name then (n, if ids.head? = some id then ids else id :: ids) :: rest
    else (n, ids) :: file name id rest

def find (index : NameIndex) (name : String) : List PackageId := (index.lookup name).getD []

def knows (index : NameIndex) (name : String) : Bool := (index.lookup name).isSome

/-- Index packages under the names that `names` gives them. -/
def ofPackages (names : Package → List String) (packages : List Package) : NameIndex :=
  packages.foldr (fun p index => (names p).foldr (fun n index => index.file n p.id) index) []

end NameIndex

end Depsolve
