import Depsolve.Proofs.Solver.Change
import Depsolve.Proofs.Solver.Turn
import Depsolve.Proofs.Universe.Sample
/-!
# What protection protects

Protection is about packages, not about their names. A protected package leaves
only for another build of its name, but that build need not be protected: it can
be obsoleted, or erased if it was installed as well.
-/
namespace Depsolve

open Relation

namespace Solver

/-- An installed package is protected by its name or by a job. -/
structure Protects (solver : Solver) (u : Universe) (jobs : List Job) (p : PackageId) : Prop where
  installed : p ∈ u.installed
  why : (u.get p).name ∈ solver.protectedNames ∨
    ∃ job ∈ jobs, job.kind = .guard ∧ ∃ set, job.target = .packages set ∧ p ∈ set

theorem mem_guardedPackages {solver : Solver} {u : Universe} {jobs : List Job} {p : PackageId} :
    p ∈ solver.guardedPackages u jobs ↔ solver.Protects u jobs p := by
  have hjob : p ∈ jobs.flatMap guardsOf ↔
      ∃ job ∈ jobs, job.kind = .guard ∧ ∃ set, job.target = .packages set ∧ p ∈ set := by
    simp only [List.mem_flatMap, mem_guardsOf]
  simp only [guardedPackages_eq, IdSet.mem_union, IdSet.mem_filter, IdSet.mem_inter,
    IdSet.mem_ofList, ← PackageSet.mem_def, List.contains_iff_mem]
  constructor
  · rintro (⟨hin, hname⟩ | ⟨hguard, hin⟩)
    · exact ⟨hin, .inl hname⟩
    · exact ⟨hin, .inr (hjob.mp hguard)⟩
  · rintro ⟨hin, hname | hguard⟩
    · exact .inl ⟨hin, hname⟩
    · exact .inr ⟨hjob.mpr hguard, hin⟩

/-- A build that jobs can take off although a package of its name is protected. -/
structure Exposed (solver : Solver) (u : Universe) (jobs : List Job) (q : PackageId) : Prop where
  considered : q ∈ u.considered
  unprotected : ¬ solver.Protects u jobs q
  way : q ∈ u.installed ∨ ∃ new ∈ u.considered, (u.get q).name ≠ (u.get new).name ∧
    (u.get new).obsoletesPackage (u.get q) = true

end Solver

namespace Search

variable {s : Search} {t t' : Trial} {p q : PackageId}

theorem Change.mem_considered (h : s.Change t t') (ht : ∀ x ∈ t.present, x ∈ s.pool.considered) :
    ∀ x ∈ t'.present, x ∈ s.pool.considered := by
  intro x hx
  cases h with
  | keep hsame => exact ht x (hsame ▸ hx)
  | remove _ _ herase =>
    rw [herase] at hx
    exact ht x (IdSet.mem_erase.mp hx).1
  | arrive hid =>
    rcases mem_arrival.mp hx with ⟨hold, -⟩ | rfl
    · exact ht x hold
    · exact hid

theorem Change.guarded_stays (h : s.Change t t') (hp : p ∈ s.guarded) (ht : p ∈ t.present) :
    p ∈ t'.present ∨ ∃ new, s.solver.TakesPlace s.pool new p := by
  cases h with
  | keep hsame => exact .inl (hsame ▸ ht)
  | remove _ hguarded herase =>
    refine .inl (herase ▸ IdSet.mem_erase.mpr ⟨ht, ?_⟩)
    rintro rfl
    exact hguarded hp
  | @arrive id hid hguarded =>
    by_cases hbuild : p ∈ s.displacedBuilds t id
    · exact .inr ⟨id, takesPlace_of_mem_displacedBuilds hid hbuild⟩
    · have hobsolete : p ∉ s.displacedByObsoletes t id := fun hmem => hguarded p hmem hp
      exact .inl (mem_arrival.mpr (.inl ⟨ht, hbuild, hobsolete⟩))

/-- A name disappears only with a build that is not protected, which was installed or which an
arriving package of another name obsoletes. -/
theorem Change.name_stays (h : s.Change t t') (hq : q ∈ t.present) :
    (∃ x ∈ t'.present, (s.get x).name = (s.get q).name) ∨ q ∉ s.guarded ∧
      (q ∈ s.initial ∨ ∃ new ∈ s.pool.considered, (s.get q).name ≠ (s.get new).name ∧
        (s.get new).obsoletesPackage (s.get q) = true) := by
  cases h with
  | keep hsame => exact .inl ⟨q, hsame ▸ hq, rfl⟩
  | @remove _ id hid hguarded herase =>
    by_cases heq : q = id
    · exact .inr ⟨heq ▸ hguarded, .inl (heq ▸ hid)⟩
    · exact .inl ⟨q, herase ▸ IdSet.mem_erase.mpr ⟨hq, heq⟩, rfl⟩
  | @arrive id hid hguarded =>
    by_cases hobsolete : q ∈ s.displacedByObsoletes t id
    · obtain ⟨-, -, hname, hobsoletes⟩ := mem_displacedByObsoletes.mp hobsolete
      exact .inr ⟨hguarded q hobsolete, .inr ⟨id, hid, hname, hobsoletes⟩⟩
    · by_cases hbuild : q ∈ s.displacedBuilds t id
      · have hname := (mem_displacedBuilds.mp hbuild).2.2.1
        exact .inl ⟨id, mem_arrival.mpr (.inr rfl), hname.symm⟩
      · exact .inl ⟨q, mem_arrival.mpr (.inl ⟨hq, hbuild, hobsolete⟩), rfl⟩

end Search

namespace Solver

variable {solver : Solver} {u : Universe} {jobs : List Job} {call : Demands} {d : Decisions}

/-- The name of a protected package is still there unless another build took its place and a build
of its name was exposed. -/
theorem solve_protects (h : (solver.solve u jobs call).outcome = .ok d) {p : PackageId}
    (hp : solver.Protects u jobs p) :
    (∃ q ∈ d.system u, (u.get q).name = (u.get p).name) ∨
      (∃ new, solver.TakesPlace u new p) ∧
        ∃ q, (u.get q).name = (u.get p).name ∧ solver.Exposed u jobs q := by
  obtain ⟨t, hrun, hsystem⟩ := solve_changes h
  rw [hsystem]
  have hguarded : p ∈ (solver.search u jobs).guarded := mem_guardedPackages.mpr hp
  have hinvariant : (∀ x ∈ t.present, x ∈ u.considered) ∧
      (p ∈ t.present ∨ ∃ new, solver.TakesPlace u new p) ∧
      ((∃ q ∈ t.present, (u.get q).name = (u.get p).name) ∨
        ∃ q, (u.get q).name = (u.get p).name ∧ solver.Exposed u jobs q) := by
    clear hsystem
    -- the second fact keeps `p` itself in view, the third whatever bears its name by now
    induction hrun with
    | refl =>
      have hpresent := PackageSet.mem_def.mp hp.installed
      exact ⟨fun x hx => u.installed_considered x (PackageSet.mem_def.mpr hx), .inl hpresent,
        .inl ⟨p, hpresent, rfl⟩⟩
    | tail _ hstep ih =>
      obtain ⟨hconsidered, hplace, hname⟩ := ih
      refine ⟨hstep.mem_considered hconsidered, ?_, ?_⟩
      · rcases hplace with hpresent | hplace
        · exact hstep.guarded_stays hguarded hpresent
        · exact .inr hplace
      · rcases hname with ⟨q, hq, hqname⟩ | hexposed
        · rcases hstep.name_stays hq with ⟨x, hx, hxname⟩ | ⟨hunguarded, hway⟩
          · exact .inl ⟨x, hx, hxname.trans hqname⟩
          · have hunprotected : ¬ solver.Protects u jobs q :=
              fun hprotects => hunguarded (mem_guardedPackages.mpr hprotects)
            have hway' := hway.imp_left Search.mem_initial.mp
            exact .inr ⟨q, hqname, hconsidered q hq, hunprotected, hway'⟩
        · exact .inr hexposed
  obtain ⟨-, hplace, hname⟩ := hinvariant
  rcases hname with hname | hexposed
  · exact .inl hname
  · rcases hplace with hpresent | hplace
    · exact .inl ⟨p, hpresent, rfl⟩
    · exact .inr ⟨hplace, hexposed⟩

def initAndRival : Universe :=
  .sample [.noarch "systemd" "1"] [.noarch "newinit" "1" [("obsoletes", "systemd")]]
    (by decide +kernel)

def rivalIfPossible : List Job :=
  [{ kind := .install, spec := "newinit", target := .packages (.ofIds 1 2 [1]), optional := true }]

theorem rivalIfPossible_protects :
    ∃ q ∈ Decisions.system initAndRival {}, (initAndRival.get q).name = "systemd" := by
  have hsolve : ((Solver.mk [] ["systemd"] 100 none).solve initAndRival rivalIfPossible
      {}).outcome = .ok {} := eq_ok_of_toOption (by decide +kernel)
  have hprotects : (Solver.mk [] ["systemd"] 100 none).Protects initAndRival rivalIfPossible 0 :=
    ⟨by decide +kernel, .inl (by decide +kernel)⟩
  have hname : (initAndRival.get 0).name = "systemd" := by decide +kernel
  have honly : ∀ new ∈ initAndRival.considered.toList,
      (initAndRival.get 0).name = (initAndRival.get new).name → 0 = new := by decide +kernel
  rcases solve_protects hsolve hprotects with hstays | ⟨⟨new, hplace⟩, -⟩
  · exact hname ▸ hstays
  · have hmem := PackageSet.mem_toList.mpr hplace.considered
    exact absurd (honly new hmem hplace.name) hplace.other

/-- The available build of the protected package is needed by an application, and obsoleted by
a rival that will do for the application as well. -/
def initReplaced : Universe :=
  .sample [.noarch "systemd" "1"]
    [.noarch "systemd" "2", .noarch "app" "1" [("requires", "systemd >= 2")],
      .noarch "newinit" "1" [("provides", "systemd = 3"), ("obsoletes", "systemd")]]
    (by decide +kernel)

def appThenRival : List Job :=
  [{ kind := .install, spec := "app", target := .packages (.ofIds 1 4 [2]) },
   { kind := .install, spec := "newinit", target := .packages (.ofIds 1 4 [3]) }]

def rivalForInit : Decisions where
  install := [2, 3]
  erase := [0]
  order := [(3, 2)]
  reasons := .ofList [(2, .user), (3, .user)]

theorem rivalForInit_loses :
    ((Solver.mk [] ["systemd"] 100 none).solve initReplaced appThenRival {}).outcome =
      .ok rivalForInit ∧
    (Solver.mk [] ["systemd"] 100 none).Protects initReplaced appThenRival 0 ∧
    ∀ q ∈ rivalForInit.system initReplaced,
      (initReplaced.get q).name ≠ (initReplaced.get 0).name := by
  refine ⟨eq_ok_of_toOption (by decide +kernel), ⟨by decide +kernel, .inl (by decide +kernel)⟩, ?_⟩
  have hall : ∀ q ∈ (rivalForInit.system initReplaced).toList,
      (initReplaced.get q).name ≠ (initReplaced.get 0).name := by decide +kernel
  exact fun q hq => hall q (IdSet.mem_toList.mpr hq)

/-- Two builds of a shell are installed, and every package that could need one of them has
another provider. -/
def shells : Universe :=
  .sample [.noarch "shell" "1", .noarch "shell" "2" [("provides", "posix")]]
    [.noarch "shell" "1.5" [("provides", "bash")], .noarch "script" "1" [("requires", "bash")],
      .noarch "bashlet" "1" [("provides", "bash")], .noarch "tool" "1" [("requires", "posix")],
      .noarch "posixlet" "1" [("provides", "posix")]]
    (by decide +kernel)

/-- The first shell is protected; both are replaced, and the second comes back to be erased. -/
def shellComesBack : List Job :=
  [{ kind := .guard, spec := "shell-1", target := .packages (.ofIds 1 7 [0]) },
   { kind := .install, spec := "script", target := .packages (.ofIds 1 7 [3])
     demands := { allowDowngrade := true } },
   { kind := .install, spec := "tool", target := .packages (.ofIds 1 7 [5]) },
   { kind := .erase, spec := "shell-2", target := .packages (.ofIds 1 7 [1]) }]

def shellsGone : Decisions where
  install := [3, 4, 5, 6]
  erase := [0, 1]
  order := [(4, 3), (6, 5)]
  reasons := .ofList [(3, .user), (4, .dependency), (5, .user), (6, .dependency)]

theorem shellsGone_loses :
    ((Solver.mk [] [] 100 none).solve shells shellComesBack {}).outcome = .ok shellsGone ∧
    (Solver.mk [] [] 100 none).Protects shells shellComesBack 0 ∧
    ∀ q ∈ shellsGone.system shells, (shells.get q).name ≠ (shells.get 0).name := by
  refine ⟨eq_ok_of_toOption (by decide +kernel), ⟨by decide +kernel, .inr ?_⟩, ?_⟩
  · exact ⟨_, List.mem_cons_self, rfl, _, rfl, by decide +kernel⟩
  · have hall : ∀ q ∈ (shellsGone.system shells).toList,
        (shells.get q).name ≠ (shells.get 0).name := by decide +kernel
    exact fun q hq => hall q (IdSet.mem_toList.mpr hq)

end Solver

end Depsolve
