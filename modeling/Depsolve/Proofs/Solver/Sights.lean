import Depsolve.Proofs.Solver.Run
import Depsolve.Proofs.Solver.Turn
/-!
# What a run shows

What can be seen of the working trial while jobs are carried out. Beside every function that may
look at it stands the list of what it shows, one entry for each look and one for each removal. A
look is one search of a trial for violations, the only thing that costs budget.
-/
namespace Depsolve

inductive Sight where
  /-- The search finds a violation in the working trial. -/
  | choicePoint (r : Rules) (t : Trial) (v : Violation)
  /-- As a repair of the working trial, a package is removed. -/
  | removal (t : Trial) (id : PackageId)
  /-- The search finds no violation. The candidate for which it began has settled. -/
  | settled (t : Trial)
  /-- The budget does not allow another look. -/
  | gaveUp (t : Trial)
  /-- A job is over, whether it took effect or failed. -/
  | jobOver (t : Trial)
deriving DecidableEq

namespace Sight

/-- With a removal, the trial from which the package is removed. -/
def trial : Sight → Trial
  | .choicePoint _ t _ | .removal t _ | .settled t | .gaveUp t | .jobOver t => t

def isLook : Sight → Bool
  | .choicePoint .. | .settled _ | .gaveUp _ => true
  | .removal .. | .jobOver _ => false

end Sight

def Repair.sights (t : Trial) : Repair → List Sight
  | .remove id => [.removal t id]
  | .add _ => []

namespace Search

variable (s : Search)

def trySights (snapshot : Option Trial) : List Repair → Trial → List Sight
  | [], _ => []
  | rep :: rest, t =>
    rep.sights (snapshot.getD t) ++
      match s.repairInPlace (snapshot.getD t) rep with
      | (_, none) => []
      | (t, some _) => trySights (if rest.isEmpty then none else snapshot) rest t

def unwindSights (e : Failure) : List Fork → Trial → List Sight
  | [], _ => []
  | f :: stack, t =>
    s.trySights f.snapshot f.untried t ++
      match s.tryInPlace f.complaint f.snapshot f.untried (f.noted e) t with
      | (_, .ok _) => []
      | (t, .error e) => unwindSights e stack t

def advanceSights (r : Rules) (t : Trial) (v : Violation) (stack : List Fork) : List Sight :=
  let reps := s.repairs r t v
  let snapshot := if reps.length > 1 then some t else none
  s.trySights snapshot reps t ++
    match s.tryInPlace (s.complaint r t v) snapshot reps none t with
    | (_, .ok _) => []
    | (t, .error e) => s.unwindSights e stack t

def settleSights (r : Rules) : Nat → Trial → List Fork → List Sight
  | 0, t, _ => [.gaveUp t]
  | left + 1, t, stack =>
    match s.firstViolation? t with
    | none => [.settled t]
    | some v =>
      .choicePoint r t v :: s.advanceSights r t v stack ++
        match s.advanceInPlace r t v stack with
        | .ok (t, stack) => settleSights r left t stack
        | .error _ => []

def chooseSights (r : Rules) (reason : Option Reason) (t : Trial) (id : PackageId) (left : Nat) :
    List Sight :=
  match s.add (pin reason t id) id with
  | .error _ => []
  | .ok t => s.settleSights r left t []

def chooseFirstSights (r : Rules) (reason : Option Reason) (t : Trial) :
    List PackageId → Nat → List Sight
  | [], _ => []
  | id :: rest, left =>
    let a := s.choose r reason t id left
    s.chooseSights r reason t id left ++
      match a.result with
      | .ok _ => []
      | .error .stepLimit => []
      | .error _ => chooseFirstSights r reason t rest a.left

def forEachSights (candidates : Trial → PackageId → List PackageId)
    (act : Trial → PackageId → List PackageId → Nat → Attempt)
    (sights : Trial → PackageId → List PackageId → Nat → List Sight) :
    List PackageId → Trial → Nat → List Sight
  | [], _, _ => []
  | id :: rest, t, left =>
    if !t.present.contains id || (candidates t id).isEmpty then
      forEachSights candidates act sights rest t left
    else
      let a := act t id (candidates t id) left
      sights t id (candidates t id) left ++
        match a.result with
        | .ok t => forEachSights candidates act sights rest t a.left
        | .error _ => []

def installSights (r : Rules) (job : Job) (t : Trial) (left : Nat) : List Sight :=
  match (s.candidates job).find? t.present.contains with
  | some _ => []
  | none => s.chooseFirstSights r (some .user) t (s.installOrder r job t) left

def eraseSights (r : Rules) (job : Job) (t : Trial) (left : Nat) : List Sight :=
  if (s.targets job t).isEmpty then []
  else
    match takeOff t (s.targets job t) with
    | .error _ => []
    | .ok bare => s.settleSights { r with eraseDependents := true } left bare []

def moveSights (r : Rules) (job : Job) (t : Trial)
    (candidatesOf : Trial → PackageId → List PackageId) (left : Nat) : List Sight :=
  forEachSights candidatesOf (s.replaceOrKeep r)
    (fun t _ order left => s.chooseFirstSights r none t order left) (s.movable job t) t left

def downgradeSights (r : Rules) (job : Job) (t : Trial) (left : Nat) : List Sight :=
  let candidatesOf := s.downgradeCandidates (s.movePool job)
  if (s.movable job t).all fun id => (candidatesOf t id).isEmpty then []
  else
    forEachSights candidatesOf (fun t _ order left => s.chooseFirst r none t order none left)
      (fun t _ order left => s.chooseFirstSights r none t order left) (s.movable job t) t left

def carryOutSights (r : Rules) (job : Job) (t : Trial) (left : Nat) : List Sight :=
  match job.kind with
  | .install => s.installSights r job t left
  | .erase => s.eraseSights r job t left
  | .upgrade | .upgradeAll => s.moveSights r job t (s.upgradeCandidates r (s.movePool job)) left
  | .distroSync | .distroSyncAll => s.moveSights r job t (s.syncCandidates r (s.movePool job)) left
  | .downgrade => s.downgradeSights r job t left
  | .reasonChange | .guard => []

def turnSights (call : Demands) (t : Trial) (job : Job) : List Sight :=
  s.carryOutSights (Rules.ofJob job call) job t s.solver.maxSteps ++ [.jobOver (s.after call t job)]

/-! ### Only the searches themselves look -/

variable {s} {r : Rules} {t : Trial}

theorem countP_trySights {snapshot : Option Trial} {reps : List Repair} :
    (s.trySights snapshot reps t).countP Sight.isLook = 0 := by
  induction reps generalizing snapshot t with
  | nil => rfl
  | cons rep rest ih =>
    have hrep : (rep.sights (snapshot.getD t)).countP Sight.isLook = 0 := by cases rep <;> rfl
    rw [trySights, List.countP_append, hrep, Nat.zero_add]
    split
    · rfl
    · exact ih

theorem countP_unwindSights {e : Failure} {stack : List Fork} :
    (s.unwindSights e stack t).countP Sight.isLook = 0 := by
  induction stack generalizing e t with
  | nil => rfl
  | cons f stack ih =>
    rw [unwindSights, List.countP_append, countP_trySights, Nat.zero_add]
    split
    · rfl
    · exact ih

theorem countP_advanceSights {v : Violation} {stack : List Fork} :
    (s.advanceSights r t v stack).countP Sight.isLook = 0 := by
  rw [advanceSights, List.countP_append, countP_trySights, Nat.zero_add]
  split
  · rfl
  · exact countP_unwindSights

theorem countP_choicePoint {v : Violation} {stack : List Fork} (later : List Sight) :
    (.choicePoint r t v :: s.advanceSights r t v stack ++ later).countP Sight.isLook =
      later.countP Sight.isLook + 1 := by
  rw [List.countP_append, List.countP_cons_of_pos (by rfl), countP_advanceSights, Nat.zero_add,
    Nat.add_comm]

end Search

end Depsolve
