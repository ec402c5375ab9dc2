import Depsolve.Sort
import Depsolve.Universe
/-!
# The order of incoming packages

A package comes after everything it needs first. Among the packages that are
ready the least by name and identifier is next. Packages that a cycle keeps from
becoming ready come last, by name.

Each package counts how many of the packages that it needs first are still to come.
-/
namespace Depsolve.Plan

def keepPair (ids : List PackageId) (kept : List (PackageId × PackageId))
    (p : PackageId × PackageId) : List (PackageId × PackageId) :=
  if ids.contains p.1 && ids.contains p.2 && p.1 != p.2 && !kept.contains p then kept ++ [p]
  else kept

/-- The pairs of an order between different packages of a list, each once. -/
def links (order : List (PackageId × PackageId)) (ids : List PackageId) :
    List (PackageId × PackageId) :=
  order.foldl (keepPair ids) []

def dependents (links : List (PackageId × PackageId)) (id : PackageId) : List PackageId :=
  (links.filter fun p => p.1 == id).map Prod.snd

/-- The packages that are ready, by name, and how many others each package waits for. -/
structure Queue where
  ready : List PackageId
  waits : PackageId → Nat

def enqueue (u : Universe) (id : PackageId) (ready : List PackageId) : List PackageId :=
  if ready.contains id then ready else insertBy (fun a b => (u.compareNames a b).isLE) id ready

namespace Queue

/-- Everything waits for what it needs, and what needs nothing is ready. -/
def start (u : Universe) (links : List (PackageId × PackageId)) (ids : List PackageId) : Queue :=
  let waits (id : PackageId) : Nat := links.countP fun p => p.2 == id
  ⟨sortCmp u.compareNames (ids.filter fun id => waits id == 0), waits⟩

def countDown (u : Universe) (q : Queue) (id : PackageId) : Queue :=
  let left := q.waits id - 1
  { ready := if left = 0 then enqueue u id q.ready else q.ready
    waits := fun other => if other = id then left else q.waits other }

/-- Take the first ready package and count down what needs it, again and again, at most `fuel`
times. -/
def drain (u : Universe) (links : List (PackageId × PackageId)) : Nat → Queue → List PackageId
  | 0, _ => []
  | fuel + 1, q =>
    match q.ready with
    | [] => []
    | id :: ready =>
      id :: drain u links fuel ((dependents links id).foldl (countDown u) { q with ready })

end Queue

/-- Each step takes one package, so their number bounds the steps. -/
def arrange (u : Universe) (order : List (PackageId × PackageId)) (ids : List PackageId) :
    List PackageId :=
  let pairs := links order ids
  let done := Queue.drain u pairs ids.length (Queue.start u pairs ids)
  done ++ sortCmp u.compareNames (ids.filter fun id => !done.contains id)

end Depsolve.Plan
