import Depsolve.Universe
/-!
# Preference between candidates

When several packages would do, the policy says which one is tried first.
-/
namespace Depsolve

structure Policy where
  /-- Without a native architecture all architectures rank equally. -/
  nativeArch : Option String := none
  /-- Prefer the lowest build instead of the highest. -/
  preferLowest : Bool := false
deriving DecidableEq

namespace Policy

/-- The native architecture first, then packages without architecture. -/
def archRank (p : Policy) (arch : String) : Nat :=
  match p.nativeArch with
  | none => 0
  | some native => if native = arch then 0 else if arch = "noarch" then 1 else 2

/-- Installed, repository priority, build, architecture and identifier, in this order. -/
def compare (p : Policy) (u : Universe) (a b : PackageId) : Ordering :=
  let x := u.get a
  let y := u.get b
  (Ord.compare y.installed x.installed).then <|
    (Ord.compare (u.repoPriority x.repo) (u.repoPriority y.repo)).then <|
      (if p.preferLowest then x.evr.compare y.evr else y.evr.compare x.evr).then <|
        (Ord.compare (p.archRank x.arch) (p.archRank y.arch)).then <| Ord.compare a b

/-- The candidates without repetition, best first. -/
def prefer (p : Policy) (u : Universe) (candidates : List PackageId) : List PackageId :=
  (sortCmp (p.compare u) candidates).eraseReps

/-- Best first, but packages that have the very name come before other providers. -/
def preferNamed (p : Policy) (u : Universe) (name : String) (candidates : List PackageId) :
    List PackageId :=
  let sorted := p.prefer u candidates
  sorted.filter (fun id => (u.get id).name == name) ++
    sorted.filter (fun id => (u.get id).name != name)

@[simp] theorem mem_prefer {p : Policy} {u : Universe} {candidates : List PackageId}
    {id : PackageId} : id ∈ p.prefer u candidates ↔ id ∈ candidates := by
  rw [prefer, mem_eraseReps, mem_sortCmp]

@[simp] theorem mem_preferNamed {p : Policy} {u : Universe} {name : String}
    {candidates : List PackageId} {id : PackageId} :
    id ∈ p.preferNamed u name candidates ↔ id ∈ candidates := by
  simp only [preferNamed, List.mem_append, List.mem_filter, mem_prefer, ← and_or_left, bne,
    Bool.not_eq_true', beq_iff_eq, beq_eq_false_iff_ne, Decidable.em, and_true, ne_eq]

end Policy

end Depsolve
