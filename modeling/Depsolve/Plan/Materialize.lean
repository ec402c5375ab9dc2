import Depsolve.Decisions
import Depsolve.IdSet
import Depsolve.Plan
import Depsolve.Plan.Order
/-!
# From decisions to a plan

Packages that stay away come first. Then every incoming package follows the
packages it obsoletes, after everything it needs first. Changes of reason come last.
-/
namespace Depsolve.Plan

def newest? (u : Universe) (ids : List PackageId) : Option PackageId :=
  ids.foldl (fun best id =>
    match best with
    | none => some id
    | some b => if (u.get b).evr.newer (u.get id).evr then some b else some id) none

/-- The installed build that an incoming package follows: the newest outgoing one of its name
with an architecture that it can replace. -/
def followed? (u : Universe) (outgoing : IdSet) (id : PackageId) : Option PackageId :=
  newest? u (outgoing.toList.filter fun old =>
    (u.get old).name == (u.get id).name && (u.get old).sameArchFamily (u.get id))

def replacementKind (u : Universe) (new old : PackageId) : OperationKind :=
  match (u.get new).evr.compare (u.get old).evr with
  | .gt => .upgrade
  | .lt => .downgrade
  | .eq => .reinstall

/-- The operations of incoming packages, and the outgoing packages that none of them follows. -/
def classify (u : Universe) (reasons : Reasons) :
    List PackageId → IdSet → List Operation × IdSet
  | [], outgoing => ([], outgoing)
  | id :: rest, outgoing =>
    match followed? u outgoing id with
    | some old =>
      let (ops, left) := classify u reasons rest (outgoing.erase old)
      let reason := (reasons.get? id).getD (u.get old).reason
      (⟨replacementKind u id old, id, some old, reason⟩ :: ops, left)
    | none =>
      let (ops, left) := classify u reasons rest outgoing
      (⟨.install, id, none, (reasons.get? id).getD .dependency⟩ :: ops, left)

/-- Outgoing packages with the incoming packages that obsolete them, and the others. -/
structure Obsoletions where
  pairs : List (PackageId × PackageId)
  left : IdSet

def recorded (incoming : IdSet) (outgoing : IdSet) (obsoletes : List (PackageId × PackageId)) :
    Obsoletions :=
  obsoletes.foldl (fun o p =>
    if incoming.contains p.1 && o.left.contains p.2 then
      ⟨o.pairs ++ [(p.2, p.1)], o.left.erase p.2⟩
    else o) ⟨[], outgoing⟩

/-- Assign the remaining outgoing packages to the first incoming ones that obsolete them. -/
def detected (u : Universe) (incoming : List PackageId) (o : Obsoletions) : Obsoletions :=
  o.left.toList.foldl (fun o old =>
    match incoming.find? fun new => (u.get new).obsoletesPackage (u.get old) with
    | some new => ⟨o.pairs ++ [(old, new)], o.left.erase old⟩
    | none => o) o

/-- The operations on the packages that `new` obsoletes, by name. -/
def obsoleteOps (u : Universe) (pairs : List (PackageId × PackageId)) (new : PackageId) :
    List Operation :=
  let olds := (pairs.filter fun p => p.2 == new).map Prod.fst
  (sortCmp u.compareNames olds).map fun old => ⟨.obsolete, old, some new, (u.get old).reason⟩

def reasonOps (u : Universe) (d : Decisions) : List Operation :=
  let changes := d.reasons.entries.filter fun c =>
    (u.get c.1).installed && !d.erase.contains c.1 && (u.get c.1).reason != c.2
  (sortCmp (fun a b => u.compareNames a.1 b.1) changes).map fun c =>
    ⟨.reasonChange, c.1, none, c.2⟩

/-- Lay decisions out as a plan. Installs of packages that are there and erases of packages
that are not are dropped. -/
def materialize (u : Universe) (d : Decisions) : Plan :=
  let incoming := IdSet.ofList (d.install.filter fun id => !(u.get id).installed)
  let outgoing := IdSet.ofList (d.erase.filter fun id => (u.get id).installed)
  let (inbound, unfollowed) := classify u d.reasons incoming.toList outgoing
  let o := detected u incoming.toList (recorded incoming unfollowed d.obsoletes)
  let erases := (sortCmp u.compareNames o.left.toList).map fun id =>
    (⟨.erase, id, none, (u.get id).reason⟩ : Operation)
  let arrivals := (arrange u d.order incoming.toList).flatMap fun id =>
    obsoleteOps u o.pairs id ++ inbound.filter (·.package == id)
  { operations := erases ++ arrivals ++ reasonOps u d }

end Depsolve.Plan
