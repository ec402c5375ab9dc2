import Depsolve.Proofs.Solver.Looks
import Depsolve.Proofs.Solver.Protection
import Depsolve.Proofs.Solver.Record
/-!
# The working copy stays in order

Six functions change the working copy of the system, and some of them fail half-way. Every trial
that a turn shows was reached by whole steps all the same, and every step keeps the copy in order.
-/
namespace Depsolve

namespace Search

variable {s : Search} {r : Rules} {job : Job} {t t' : Trial} {id : PackageId}

variable (s) in
/-- A working copy in order. What is taken off for good was there at the start, and each recorded
pair is a package with one of another name that it obsoletes. -/
structure Orderly (t : Trial) : Prop extends s.Coherent t where
  takenOff : ∀ id ∈ t.forbidden, id ∈ s.pool.installed
  obsoleted : ∀ p ∈ t.obsoleted, (s.get p.2).name ≠ (s.get p.1).name ∧
    (s.get p.1).obsoletesPackage (s.get p.2) = true

theorem orderly_initial : s.Orderly { present := s.pool.installed.members } where
  toCoherent := coherent_initial
  takenOff := by simp
  obsoleted := by simp

theorem Step.orderly (h : s.Step r job t t') (ht : s.Orderly t) : s.Orderly t' where
  toCoherent := h.coherent ht.toCoherent
  takenOff := by
    intro id hid
    rcases h.of_mem_forbidden hid with hbefore | ⟨hinitial, -⟩
    · exact ht.takenOff id hbefore
    · exact mem_initial.mp hinitial
  obsoleted := by
    intro p hp
    rcases h.of_mem_obsoleted hp with hbefore | hnew
    · exact ht.obsoleted p hbefore
    · exact hnew

/-- Whatever a removal is a repair of, its package may be removed. -/
theorem Shows.allowed (h : s.Shows r job t (.removal t' id)) :
    id ∈ s.initial ∧ id ∉ t'.pinned ∧ id ∉ s.guarded := by
  obtain ⟨t₁, b, -, -, hwitnessed⟩ := h
  cases hwitnessed with
  | removal _ _ hrep => exact (removal_eq_allowed.mp (removal_of_mem_repairs hrep)).2

end Search

namespace Solver

variable {solver : Solver} {u : Universe} {jobs : List Job} {job : Job} {n : Nat} {t t' : Trial}

theorem Run.orderly {call : Demands} (h : solver.Run u jobs call t t')
    (ht : (solver.search u jobs).Orderly t) : (solver.search u jobs).Orderly t' :=
  (h.preserves ht.toCoherent ht fun _ _ _ _ _ ht hstep => hstep.orderly ht).2

theorem HasTurn.shows {call : Demands} {x : Sight} (h : solver.HasTurn u jobs n job)
    (hx : x ∈ (solver.search u jobs).turnSights call (solver.trialAt u jobs call n) job) :
    (solver.search u jobs).Shows (Rules.ofJob job call) job (solver.trialAt u jobs call n) x ∨
      x = .jobOver ((solver.search u jobs).after call (solver.trialAt u jobs call n) job) := by
  rcases List.mem_append.mp hx with hx | hx
  · refine .inl (Search.shows_of_mem_carryOutSights (by rfl) (fun hkind _ hid => ?_) hx)
    exact unguarded_of_mem_admitted (h.run call).1 hkind hid
  · exact .inr (List.mem_singleton.mp hx)

/-- In the turn of any job, every trial at a choice point, at the end of a candidate that settled
and at the end of the job is in order, and a package that is removed as a repair was installed, is
not protected and was not chosen. The record shows every look that the job is charged for. -/
theorem turn_orderly (h : solver.HasTurn u jobs n job) (call : Demands) :
    let s := solver.search u jobs
    let start := solver.trialAt u jobs call n
    (∀ x ∈ s.turnSights call start job, s.Orderly x.trial) ∧
    (∀ t id, .removal t id ∈ s.turnSights call start job →
      id ∈ u.installed ∧ id ∉ t.pinned ∧ ¬ solver.Protects u jobs id) ∧
    if (s.turn call start job).failure? = some .stepLimit
    then (s.turnSights call start job).countP Sight.isLook = solver.maxSteps + 1
    else (s.turnSights call start job).countP Sight.isLook + (s.turn call start job).left =
      solver.maxSteps := by
  obtain ⟨hadmitted, hrun⟩ := h.run call
  refine ⟨fun x hx => ?_, fun t id hremoval => ?_, Search.countP_turnSights⟩
  · have hsteps : Relation.ReflTransGen
        ((solver.search u jobs).Step (Rules.ofJob job call) job)
        (solver.trialAt u jobs call n) x.trial := by
      rcases h.shows hx with hshows | rfl
      · exact hshows.steps
      · exact after_steps hadmitted _
    exact (hrun.trans (run_of_steps hadmitted hsteps)).orderly Search.orderly_initial
  · obtain ⟨hinitial, hpinned, hguarded⟩ :=
      ((h.shows hremoval).resolve_right Sight.noConfusion).allowed
    exact ⟨Search.mem_initial.mp hinitial, hpinned,
      fun hprotects => hguarded (mem_guardedPackages.mpr hprotects)⟩

/-- A library with a tool that needs it, a shell with its replacement, and a protected package. -/
def shellRenewed : Universe :=
  .sample
    [.noarch "lib" "1", .noarch "tool" "1" [("requires", "lib")], .noarch "shell" "1",
      .noarch "init" "1"]
    [.noarch "newshell" "1" [("obsoletes", "shell")]] (by decide +kernel)

def renewShell : Job :=
  { kind := .install, spec := "newshell", target := .packages (.ofIds 1 5 [4]) }

def eraseLib : Job := { kind := .erase, spec := "lib", target := .packages (.ofIds 1 5 [0]) }

/-- The tool goes with the library, from a copy in which the new shell has replaced the old. -/
theorem toolRemoved_orderly :
    let solver := Solver.mk [] ["init"] 100 none
    let seen := (solver.search shellRenewed [renewShell, eraseLib]).turnSights {}
      (solver.trialAt shellRenewed [renewShell, eraseLib] {} 1) eraseLib
    ∃ t, .removal t 1 ∈ seen ∧ t.forbidden.toList = [0] ∧ t.obsoleted = [(4, 2)] ∧
      (solver.search shellRenewed [renewShell, eraseLib]).Orderly t ∧
      1 ∈ shellRenewed.installed ∧ 1 ∉ t.pinned ∧
      ¬ solver.Protects shellRenewed [renewShell, eraseLib] 1 := by
  have hturn : (Solver.mk [] ["init"] 100 none).HasTurn shellRenewed [renewShell, eraseLib] 1
      eraseLib := ⟨rfl, by decide, by decide +kernel⟩
  obtain ⟨horderly, hremovals, -⟩ := turn_orderly hturn {}
  let t : Trial :=
    { present := .ofList [1, 3, 4], pinned := .ofList [4], forbidden := .ofList [0],
      obsoleted := [(4, 2)], reasons := .ofList [(4, .user)] }
  have hmem : .removal t 1 ∈ ((Solver.mk [] ["init"] 100 none).search shellRenewed
      [renewShell, eraseLib]).turnSights {} ((Solver.mk [] ["init"] 100 none).trialAt shellRenewed
        [renewShell, eraseLib] {} 1) eraseLib := by decide +kernel
  exact ⟨t, hmem, by decide +kernel, rfl, horderly _ hmem, hremovals t 1 hmem⟩

end Solver

end Depsolve
