import Depsolve.Proofs.Cycle.Rules
/-!
# The ledger of a session

A ledger is kept from the outside: from the calls of a session, from their results and from
what executors were given. It holds what happened since the session last started over.
-/
namespace Depsolve

namespace Cycle.Event

/-- What the solver made of the goal, where the event is a resolution. -/
def resolution? (e : Event) : Option (Except ProblemSet Plan) :=
  match e.call, e.turn.result with
  | .resolve _, .ok (some plan) => some (.ok plan)
  | .resolve _, .error (.unsatisfiable problems) => some (.error problems)
  | _, _ => none

def part? (e : Event) : Option ExecutorPart :=
  if e.turn.handed.isSome then e.call.part? else none

def completes (e : Event) : Bool := e.part? == some .execute && e.turn.result.isOk

def taken? (e : Event) : Option Plan :=
  match e.call, e.turn.result with
  | .takePlan, .ok plan => plan
  | _, _ => none

end Cycle.Event

structure Ledger where
  /-- What the solver made of the goal the last time. -/
  resolution : Option (Except ProblemSet Plan) := none
  /-- The parts of executors that were called, in order. -/
  parts : List ExecutorPart := []
  /-- Whether an executor carried out the plan. -/
  completed : Bool := false
  /-- The plans that were taken out. -/
  taken : List Plan := []

namespace Ledger

def note (l : Ledger) (e : Cycle.Event) : Ledger :=
  if e.call.startsOver then {}
  else
    { resolution := e.resolution?.or l.resolution
      parts := l.parts ++ e.part?.toList
      completed := l.completed || e.completes
      taken := l.taken ++ e.taken?.toList }

end Ledger

def Session.ledger (s : Session) : Ledger := s.events.foldl Ledger.note {}

theorem Session.ledger_call (s : Session) (k : Cycle.Call) :
    (s.call k).ledger = s.ledger.note ⟨k, s.cycle.perform k⟩ := by
  rw [ledger, call, List.foldl_append]
  rfl

namespace Ledger

open Depsolve.Cycle

variable (l : Ledger) {k : Call} {c : Cycle} {result : Except ResolveError (Option Plan)}
  {records : List LogRecord}

theorem note_startsOver {e : Event} (h : e.call.startsOver = true) : l.note e = {} :=
  if_pos h

theorem note_quiet {e : Event} (hcall : e.call.startsOver = false)
    (hresolution : e.resolution? = none) (hpart : e.part? = none) (htaken : e.taken? = none) :
    l.note e = l := by
  have hcompletes : e.completes = false := by rw [Event.completes, hpart]; rfl
  simp [note, hcall, hresolution, hpart, hcompletes, htaken]

theorem note_refused {s t : CycleState} (hk : k.startsOver = false) :
    l.note ⟨k, { cycle := c, result := .error (.transition s t) }⟩ = l := by
  apply note_quiet l hk
  · cases k <;> rfl
  · rfl
  · cases k <;> rfl

/-- A call that does nothing but fail after it has entered its state can at most be noted as a
resolution. -/
theorem note_failed (c : Cycle) (e : ResolveError) (records : List LogRecord)
    (hk : k.startsOver = false) :
    ∃ resolution, l.note ⟨k, { cycle := c, result := .error e, records }⟩ =
      { l with resolution } := by
  have htaken : Event.taken? ⟨k, { cycle := c, result := .error e, records }⟩ = none := by
    cases k <;> rfl
  exact ⟨_, by simp [note, hk, htaken, Event.part?, Event.completes]; rfl⟩

/-- A part of an executor that was called is noted; it is the last one if it is done without
an error. -/
theorem note_part {part : ExecutorPart} {given : Universe × Plan} (hk : k.part? = some part) :
    l.note ⟨k, { cycle := c, result, records, handed := some given }⟩ =
      { l with
        parts := l.parts ++ [part]
        completed := l.completed || (part == .execute && result.isOk) } := by
  have hstart : k.startsOver = false := Call.startsOver_of_part? hk
  have hresolution :
      Event.resolution? ⟨k, { cycle := c, result, records, handed := some given }⟩ = none := by
    cases k <;> first | rfl | cases hk
  have htaken : Event.taken? ⟨k, { cycle := c, result, records, handed := some given }⟩ = none := by
    cases k <;> first | rfl | cases hk
  simp [note, hstart, hresolution, htaken, Event.part?, Event.completes, hk]

end Ledger

end Depsolve
