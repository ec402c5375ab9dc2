import Depsolve.Proofs.Solver.Step
import Depsolve.Proofs.Universe.Sample
/-!
# What requests leave behind

A job that brings a package in pins it, and nothing that comes later takes a
pinned package off. So what an install or a downgrade has chosen is part of the
solution, whatever jobs follow.
-/
namespace Depsolve

open Relation

namespace Search

variable {s : Search} {r : Rules} {job : Job} {t t' : Trial} {left : Nat}

theorem install_pins (hr : r.eraseDependents = false) (hkind : job.kind = .install)
    (h : (s.install r job t left).result = .ok t') : ∃ c ∈ s.candidates job, c ∈ t'.pinned := by
  cases install_eq_ok hkind h with
  | pin _ hid => exact ⟨_, hid, IdSet.mem_insert.mpr (.inr rfl)⟩
  | install _ hid habsent _ hchosen =>
    exact ⟨_, hid, (hchosen.steps hr (.chosen hkind hid habsent)).2⟩
  | replace _ _ hid => simp only [successors, hkind, List.not_mem_nil] at hid
  | erase hother | clean hother | mark hother => exact absurd (hkind.symm.trans hother) (by decide)

variable (s job) in
/-- A package that a downgrade may end in: a candidate that is older than an installed build of
its name and family. -/
structure Lowered (c : PackageId) : Prop where
  considered : c ∈ s.pool.considered
  candidate : job.target ≠ .all → c ∈ s.candidates job
  older : ∃ old ∈ s.pool.installed, (s.get c).name = (s.get old).name ∧
    (s.get c).sameArchFamily (s.get old) = true ∧ (s.get c).evr.older (s.get old).evr = true

theorem lowered_of_mem_successors {old c : PackageId} (hkind : job.kind = .downgrade)
    (hold : old ∈ s.initial) (hc : c ∈ s.successors r job t old) : s.Lowered job c := by
  simp only [successors, hkind] at hc
  obtain ⟨hpool, hreplaces, holder⟩ := mem_downgradeCandidates.mp hc
  simp only [replaces, sameFamily, Bool.and_eq_true, beq_iff_eq] at hreplaces
  obtain ⟨hconsidered, -, hcandidate⟩ := mem_movePool hpool
  exact ⟨hconsidered, hcandidate, old, mem_initial.mp hold, hreplaces.2.1, hreplaces.2.2, holder⟩

theorem downgrade_pins (hr : r.eraseDependents = false) (hkind : job.kind = .downgrade)
    (h : (s.downgrade r job t left).result = .ok t') : ∃ c ∈ t'.pinned, s.Lowered job c := by
  obtain ⟨⟨old, hold, hsome⟩, hvisits⟩ := downgrade_spec hkind h
  have hpresent := (mem_of_mem_movable hold).1
  -- the first installed build that has an older candidate is replaced by one, which is pinned
  obtain ⟨old, hold, t₁, hpresent, hfirst, hrest⟩ := forEach_visits
    (fun _ hx _ _ _ => chooseFirst_move hx) ⟨old, hold, hpresent, hsome⟩ hvisits
  obtain ⟨c, hc, hchosen⟩ := chooseFirst_eq_ok hfirst
  have hinitial := (mem_of_mem_movable hold).2
  have hpinned := (hchosen.steps hr (.successor hinitial hpresent hc)).2
  have hguarded : job.kind = .erase → ∀ id ∈ s.candidates job, id ∉ s.guarded :=
    fun hother => absurd (hkind.symm.trans hother) (by decide)
  have hsteps := steps_of_moves hr hguarded hrest
  have hkeeps := keeps_of_run (fun _ _ hstep => hstep.keeps) hsteps
  exact ⟨c, hkeeps.pinned c hpinned, lowered_of_mem_successors hkind hinitial hc⟩

end Search

namespace Solver

variable {solver : Solver} {u : Universe} {jobs : List Job} {call : Demands} {d : Decisions}
  {t t' : Trial} {job : Job}

/-- What a job pins whenever it succeeds is part of the solution. -/
theorem exists_mem_system {P : PackageId → Prop} (h : (solver.solve u jobs call).outcome = .ok d)
    (hjob : job ∈ jobs) (hkind : job.kind ≠ .guard) (hmandatory : job.optional = false)
    (hpins : ∀ t t' left,
      ((solver.search u jobs).carryOut (Rules.ofJob job call) job t left).result = .ok t' →
      ∃ c ∈ t'.pinned, P c) : ∃ c ∈ d.system u, P c := by
  obtain ⟨t, t', t'', left, hbefore, hok, hduring, hafter, hsystem⟩ :=
    exists_carryOut h hjob hkind hmandatory
  obtain ⟨c, hc, hP⟩ := hpins t t' left hok
  have hcoherent := ((hbefore.trans hduring).trans hafter).coherent Search.coherent_initial
  exact ⟨c, hsystem ▸ hcoherent.pinned c (hafter.keeps.pinned c hc), hP⟩

/-- The solution has a candidate of every install that may not be passed over, and for every
downgrade a candidate that is older than an installed build. -/
theorem exists_candidate_mem_system (h : (solver.solve u jobs call).outcome = .ok d)
    (hjob : job ∈ jobs) :
    (job.kind = .install → job.optional = false →
      ∃ c ∈ d.system u, c ∈ (solver.search u jobs).candidates job) ∧
    (job.kind = .downgrade →
      job.optional = false ∨ (∃ r demands, Request.job u demands r = job) →
        ∃ c ∈ d.system u, (solver.search u jobs).Lowered job c) := by
  constructor
  · intro hkind hmandatory
    refine exists_mem_system h hjob (by rw [hkind]; decide) hmandatory fun t t' left hok => ?_
    simp only [Search.carryOut, hkind] at hok
    obtain ⟨c, hc, hpinned⟩ := Search.install_pins (by rfl) hkind hok
    exact ⟨c, hpinned, hc⟩
  · intro hkind hmade
    have hmandatory := Job.optional_of_made (by rw [hkind]; decide) hmade
    refine exists_mem_system h hjob (by rw [hkind]; decide) hmandatory fun t t' left hok => ?_
    simp only [Search.carryOut, hkind] at hok
    exact Search.downgrade_pins (by rfl) hkind hok

/-- A tool of which an older build is wanted, and a newer one that an upgrade would bring. -/
def toolBuilds : Universe :=
  .sample [.noarch "tool" "2", .noarch "plugin" "1" [("requires", "tool")]]
    [.noarch "tool" "1", .noarch "tool" "3", .noarch "plugin" "2" [("requires", "tool >= 2")],
      .noarch "app" "1" [("requires", "plugin")]]
    (by decide +kernel)

def wantApp : Job := { kind := .install, spec := "app", target := .packages (.ofIds 1 6 [5]) }

def lowerTool : Job :=
  { kind := .downgrade, spec := "tool", target := .packages (.ofIds 1 6 [2, 3]) }

def thenUpgrade : Job := { kind := .upgradeAll, spec := "*", target := .all }

/-- The application comes and the tool moves down, and the upgrade leaves both alone. -/
def appAndOldTool : Decisions where
  install := [2, 5]
  erase := [0]
  reasons := .ofList [(2, .unknown), (5, .user)]

theorem appAndOldTool_mem_system :
    (∃ c ∈ appAndOldTool.system toolBuilds, c ∈ ((Solver.mk [] [] 100 none).search toolBuilds
      [wantApp, lowerTool, thenUpgrade]).candidates wantApp) ∧
    ∃ c ∈ appAndOldTool.system toolBuilds, ((Solver.mk [] [] 100 none).search toolBuilds
      [wantApp, lowerTool, thenUpgrade]).Lowered lowerTool c := by
  have hsolve : ((Solver.mk [] [] 100 none).solve toolBuilds [wantApp, lowerTool, thenUpgrade]
      {}).outcome = .ok appAndOldTool := eq_ok_of_toOption (by decide +kernel)
  constructor
  · exact (exists_candidate_mem_system hsolve (by simp)).1 rfl rfl
  · exact (exists_candidate_mem_system hsolve (by simp)).2 rfl (.inl rfl)

/-- A plugin that the older build of its tool would break. -/
def toolAndPlugin : Universe :=
  .sample [.noarch "tool" "2", .noarch "plugin" "1" [("requires", "tool >= 2")]]
    [.noarch "tool" "1"] (by decide +kernel)

def mayLowerTool : Job :=
  { kind := .downgrade, spec := "tool", target := .packages (.ofIds 1 3 [2]), optional := true }

/-- An optional downgrade that fails is passed over, and no older build is in the solution. -/
theorem mayLowerTool_passed_over :
    ((Solver.mk [] [] 100 none).solve toolAndPlugin [mayLowerTool] {}).outcome = .ok {} ∧
    mayLowerTool.kind = .downgrade ∧ ¬∃ c ∈ Decisions.system toolAndPlugin {},
      ((Solver.mk [] [] 100 none).search toolAndPlugin [mayLowerTool]).Lowered mayLowerTool c := by
  refine ⟨eq_ok_of_toOption (by decide +kernel), rfl, ?_⟩
  rintro ⟨c, hc, hlowered⟩
  obtain ⟨old, hold, hname, -, holder⟩ := hlowered.older
  -- the newer tool and its plugin stay, and neither is older than the installed build of its name
  have hnewest : ∀ c ∈ (Decisions.system toolAndPlugin {}).toList,
      ∀ old ∈ toolAndPlugin.installed.toList,
        (toolAndPlugin.get c).name = (toolAndPlugin.get old).name →
        (toolAndPlugin.get c).evr.older (toolAndPlugin.get old).evr = false := by
    decide +kernel
  have hnot := hnewest c (IdSet.mem_toList.mpr hc) old (PackageSet.mem_toList.mpr hold) hname
  exact Bool.false_ne_true (hnot.symm.trans holder)

end Solver

end Depsolve
