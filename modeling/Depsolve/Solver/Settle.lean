import Depsolve.Solver.Repair
/-!
# Settling a trial

Depth-first search for a trial without violations. The search has one working
trial, which it changes in place, and a stack of forks with the repairs that were
not tried yet. When a repair fails further down, the nearest fork that has one left
goes on with it, from a snapshot of the trial in which its violation was found.
Every look for a violation costs one step of the budget.
-/
namespace Depsolve

structure Fork where
  /-- The trial in which the violation was found, as long as the search may go back to it. A
  fork with a single repair has none. -/
  snapshot : Option Trial
  untried : List Repair
  current : Repair
  /-- The first failure of a provider that was tried. -/
  deeper : Option Failure
  complaint : Complaint

/-- Record a failure further down. The failure of a removal is not kept. -/
def Fork.noted (f : Fork) (e : Failure) : Option Failure :=
  match f.current with
  | .add _ => f.deeper <|> some e
  | .remove _ => f.deeper

inductive Settlement where
  | settled (t : Trial) (left : Nat)
  | stuck (e : Failure) (left : Nat)
  | overBudget
deriving DecidableEq

namespace Search

/-- Change the working trial for one package after the other, up to the first failure. What was
changed by then stays changed. -/
def changeEach (change : Trial → PackageId → Except Failure Trial) :
    List PackageId → Trial → Trial × Option Failure
  | [], t => (t, none)
  | id :: rest, t =>
    match change t id with
    | .ok t => changeEach change rest t
    | .error e => (t, some e)

variable (s : Search)

/-- Put a package on the working trial. A failure may come when some packages have been
displaced already. -/
def addInPlace (t : Trial) (id : PackageId) : Trial × Option Failure :=
  if t.present.contains id then (t, none)
  else if t.forbidden.contains id then (t, some (.forbidden id))
  else
    match changeEach displaceBuild (s.displacedBuilds t id) t with
    | (t₁, some e) => (t₁, some e)
    | (t₁, none) =>
      match changeEach (s.displaceObsolete id) (s.displacedByObsoletes t id) t₁ with
      | (t₂, some e) => (t₂, some e)
      | (t₂, none) => ({ t₂ with present := t₂.present.insert id }, none)

def repairInPlace (t : Trial) : Repair → Trial × Option Failure
  | .remove id =>
    ({ t with present := t.present.erase id, forbidden := t.forbidden.insert id }, none)
  | .add id => s.addInPlace t id

/-- Carry out the first of the repairs that can be. Before each the working trial goes back to
the snapshot, which is given away to the last. -/
def tryInPlace (complaint : Complaint) (snapshot : Option Trial) :
    List Repair → Option Failure → Trial → Trial × Except Failure Fork
  | [], deeper, t => (t, .error (complaint.failure deeper))
  | rep :: rest, deeper, t =>
    let kept := if rest.isEmpty then none else snapshot
    match s.repairInPlace (snapshot.getD t) rep with
    | (t, none) => (t, .ok ⟨kept, rest, rep, deeper, complaint⟩)
    | (t, some e) => tryInPlace complaint kept rest (deeper <|> some e) t

/-- Go back to the nearest fork with a repair left that can be carried out. -/
def unwindInPlace (e : Failure) : List Fork → Trial → Except Failure (Trial × List Fork)
  | [], _ => .error e
  | f :: stack, t =>
    match s.tryInPlace f.complaint f.snapshot f.untried (f.noted e) t with
    | (t, .ok f) => .ok (t, f :: stack)
    | (t, .error e) => unwindInPlace e stack t

/-- Repair a violation found in the working trial, or go back. A snapshot is made only where
there is a choice. -/
def advanceInPlace (r : Rules) (t : Trial) (v : Violation) (stack : List Fork) :
    Except Failure (Trial × List Fork) :=
  let reps := s.repairs r t v
  let snapshot := if reps.length > 1 then some t else none
  match s.tryInPlace (s.complaint r t v) snapshot reps none t with
  | (t, .ok f) => .ok (t, f :: stack)
  | (t, .error e) => s.unwindInPlace e stack t

def settleInPlace (r : Rules) : Nat → Trial → List Fork → Settlement
  | 0, _, _ => .overBudget
  | left + 1, t, stack =>
    match s.firstViolation? t with
    | none => .settled t left
    | some v =>
      match s.advanceInPlace r t v stack with
      | .ok (t, stack) => settleInPlace r left t stack
      | .error e => .stuck e left

def settle (r : Rules) (t : Trial) (left : Nat) : Settlement := s.settleInPlace r left t []

end Search

end Depsolve
