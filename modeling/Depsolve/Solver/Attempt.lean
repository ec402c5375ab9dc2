import Depsolve.Solver.Note
import Depsolve.Solver.Settle
/-!
# Attempts

Trying candidates within the budget of a job. An attempt ends with a trial or a
failure; the steps that it used are gone either way.
-/
namespace Depsolve

structure Attempt where
  result : Except Failure Trial
  /-- The budget that is left. -/
  left : Nat
  notes : List Note := []

namespace Attempt

def fail (e : Failure) (left : Nat) : Attempt := { result := .error e, left }

def done (t : Trial) (left : Nat) : Attempt := { result := .ok t, left }

def andThen (a : Attempt) (next : Trial → Nat → Attempt) : Attempt :=
  match a.result with
  | .error e => { a with result := .error e }
  | .ok t =>
    let b := next t a.left
    { b with notes := a.notes ++ b.notes }

end Attempt

namespace Search

variable (s : Search)

/-- Choose one candidate: pin it, record the reason, bring it in and settle. -/
def choose (r : Rules) (reason : Option Reason) (t : Trial) (id : PackageId) (left : Nat) :
    Attempt :=
  let t := {
    t with
    pinned := t.pinned.insert id
    reasons := match reason with | some reason => t.reasons.insert id reason | none => t.reasons }
  match s.add t id with
  | .error e => .fail e left
  | .ok t =>
    match s.settle r t left with
    | .settled t left => .done t left
    | .stuck e left => .fail e left
    | .overBudget => .fail .stepLimit 0

/-- Take the first candidate that can be chosen. If none can, the first failure counts; an
exhausted budget ends the attempt at once. -/
def chooseFirst (r : Rules) (reason : Option Reason) (t : Trial) :
    List PackageId → Option Failure → Nat → Attempt
  | [], first, left => .fail (first.getD (.notApplicable .noCandidate)) left
  | id :: rest, first, left =>
    let a := s.choose r reason t id left
    match a.result with
    | .ok t => .done t a.left
    | .error .stepLimit => .fail .stepLimit a.left
    | .error e => chooseFirst r reason t rest (first <|> some e) a.left

/-- Replace an installed package by the first candidate that can be chosen. Unless only the
best will do, a failure leaves the package where it is. -/
def replaceOrKeep (r : Rules) (t : Trial) (old : PackageId) (candidates : List PackageId)
    (left : Nat) : Attempt :=
  let a := s.chooseFirst r none t candidates none left
  match a.result with
  | .ok _ => a
  | .error .stepLimit => a
  | .error _ =>
    if r.best then a
    else { a with result := .ok t, notes := a.notes ++ [.keeping (s.get old)] }

/-- Go through installed packages; those that left the trial meanwhile or have no candidate
are passed over. -/
def forEach (candidates : Trial → PackageId → List PackageId)
    (act : Trial → PackageId → List PackageId → Nat → Attempt) :
    List PackageId → Trial → Nat → Attempt
  | [], t, left => .done t left
  | id :: rest, t, left =>
    if !t.present.contains id || (candidates t id).isEmpty then
      forEach candidates act rest t left
    else
      (act t id (candidates t id) left).andThen (forEach candidates act rest)

end Search

end Depsolve
