import Depsolve.Proofs.Plan.Classification
import Depsolve.Proofs.Solver.Step
import Depsolve.Proofs.Universe.Sample
import Depsolve.Proofs.Version.Order
/-!
# Upgrades that end in an older build

An upgrade tries newer builds than the one at hand, and no provider that would
replace a newer build. Both look at less than what the new build displaces, so an
installed package can still end up behind an older build. This lists every way.
-/
namespace Depsolve

theorem Package.sameArchFamily_comm (p q : Package) : p.sameArchFamily q = q.sameArchFamily p := by
  simp only [sameArchFamily, Bool.beq_comm (a := p.arch), Bool.or_assoc,
    Bool.or_comm p.isNoarch]

namespace Solver

/-- A build of the name and family of `old` that is not older. -/
structure StandsFor (u : Universe) (x old : PackageId) : Prop where
  considered : x ∈ u.considered
  name : (u.get x).name = (u.get old).name
  family : (u.get old).sameArchFamily (u.get x) = true
  notOlder : (u.get x).evr.older (u.get old).evr = false

/-- An older build of the name and family of `old` that the search may bring in nevertheless. -/
structure Underbids (solver : Solver) (u : Universe) (y old : PackageId) : Prop where
  considered : y ∈ u.considered
  available : y ∉ u.installed
  name : (u.get y).name = (u.get old).name
  family : (u.get y).sameArchFamily (u.get old) = true
  older : (u.get y).evr.older (u.get old).evr = true
  /-- It is not compared with what is present, or it upgrades another installed build, or it
  obsoletes an installed package. -/
  way : solver.isInstallonly (u.get y) = true ∨
    (∃ z ∈ u.installed, z ≠ old ∧ (u.get z).name = (u.get old).name ∧
      (u.get y).evr.newer (u.get z).evr = true) ∨
    ∃ z ∈ u.installed, (u.get y).obsoletesPackage (u.get z) = true

/-- The ways in which an installed package ends up behind an older build of its family. -/
inductive Sinks (solver : Solver) (u : Universe) (jobs : List Job) (call : Demands)
    (old : PackageId) : Prop
  /-- Packages may be erased. -/
  | erased {job : Job} (hjob : job ∈ jobs) (hallowed : (Rules.ofJob job call).allowErasing = true)
  /-- The package, or a build that took its place, is obsoleted. -/
  | obsoleted {x new : PackageId} (hx : StandsFor u x old) (hnew : new ∈ u.considered)
      (hname : (u.get x).name ≠ (u.get new).name)
      (hobsoletes : (u.get new).obsoletesPackage (u.get x) = true)
  /-- The package can be replaced, and an older build gets past the comparisons. -/
  | underbid {new y : PackageId} (hnew : solver.TakesPlace u new old)
      (hy : solver.Underbids u y old)
  /-- The package can be replaced, and builds of its name can replace each other along a chain
  but not directly. -/
  | estranged {new a b c : PackageId} (hnew : solver.TakesPlace u new old)
      (hconsidered : a ∈ u.considered ∧ b ∈ u.considered ∧ c ∈ u.considered)
      (hname : (u.get a).name = (u.get old).name ∧ (u.get b).name = (u.get old).name ∧
        (u.get c).name = (u.get old).name)
      (hchain : (u.get a).sameArchFamily (u.get b) = true ∧
        (u.get b).sameArchFamily (u.get c) = true)
      (hends : (u.get a).sameArchFamily (u.get c) = false)

end Solver

namespace Search

variable {solver : Solver} {u : Universe} {jobs : List Job} {call : Demands} {r : Rules}
  {job : Job} {t t' : Trial} {x y old : PackageId}

theorem standsFor_self (hold : old ∈ u.installed) : Solver.StandsFor u old old where
  considered := u.installed_considered old hold
  name := rfl
  family := by simp [Package.sameArchFamily]
  notOlder := Evr.older_self

/-- While a build that stands for `old` is present, an older build of the family comes in only
past the comparisons, or because it does not compare with that build. -/
theorem Wanted.underbids (h : (solver.search u jobs).Wanted r job t y)
    (hkind : job.kind = .upgrade ∨ job.kind = .upgradeAll) (hdown : r.allowDowngrade = false)
    (ht : (solver.search u jobs).Coherent t) (hx : x ∈ t.present)
    (hstands : Solver.StandsFor u x old) (hname : (u.get y).name = (u.get old).name)
    (hfamily : (u.get y).sameArchFamily (u.get old) = true)
    (holder : (u.get y).evr.older (u.get old).evr = true)
    (havailable : solver.isInstallonly (u.get y) = true → y ∉ u.installed) :
    solver.Underbids u y old ∨ (u.get y).sameArchFamily (u.get x) = false := by
  have hconsidered : y ∈ u.considered := h.mem_considered
  cases h with
  | chosen hinstall =>
    rcases hkind with hkind | hkind <;> exact absurd (hkind.symm.trans hinstall) (by decide)
  | @successor z hz _ hid =>
    have hinstalled : z ∈ u.installed := mem_initial.mp hz
    rcases mem_successors hid with ⟨hpool, hreplaces, haccepts⟩ | ⟨-, hobsoleter, hobsoletes⟩
    · have hnewer : (u.get y).evr.newer (u.get z).evr = true := by
        rcases hkind with hkind | hkind <;> rwa [hkind] at haccepts
      simp only [replaces, sameFamily, Bool.and_eq_true, beq_iff_eq] at hreplaces
      have hzname : (u.get z).name = (u.get old).name := hreplaces.2.1.symm.trans hname
      have hne : z ≠ old := by
        rintro rfl
        exact absurd (holder.symm.trans (Evr.not_older_of_newer hnewer)) (by decide)
      exact .inl ⟨hconsidered, (mem_movePool hpool).2.1, hname, hfamily, holder,
        .inr (.inl ⟨z, hinstalled, hne, hzname, hnewer⟩)⟩
    · exact .inl ⟨hconsidered, (mem_obsoleters hobsoleter).2, hname, hfamily, holder,
        .inr (.inr ⟨z, hinstalled, hobsoletes⟩)⟩
  | provider _ _ _ hid =>
    have hprovider := (mem_providers.mp hid).2.2.2.resolve_left (by simp [hdown])
    by_cases hseveral : solver.isInstallonly (u.get y) = true
    · exact .inl ⟨hconsidered, havailable hseveral, hname, hfamily, holder, .inl hseveral⟩
    · refine .inr (Bool.eq_false_iff.mpr fun hsame => ?_)
      -- `x` is newer than `y`, for it is not older than `old`
      have hnewer : (u.get x).evr.newer (u.get y).evr = true := by
        refine Bool.not_eq_false _ ▸ fun hnot => ?_
        have hno := Evr.not_older_of_not_newer hnot hstands.notOlder
        exact absurd (holder.symm.trans hno) (by decide)
      have hsingle : (solver.search u jobs).isInstallonly y = false :=
        Bool.eq_false_iff.mpr hseveral
      have hdowngrade := isDowngrade_iff.mpr ⟨hsingle, x, ht.lt_size hx,
        hstands.name.trans hname.symm, hx, hsame, hnewer⟩
      exact absurd (hdowngrade.symm.trans hprovider) (by decide)

section Upgrade

variable (hjob : job ∈ jobs) (hkind : job.kind = .upgrade ∨ job.kind = .upgradeAll)

include hjob hkind

theorem Step.stays_or_sinks (h : (solver.search u jobs).Step (Rules.ofJob job call) job t t')
    (hx : x ∈ t.present) :
    x ∈ t'.present ∨ solver.Sinks u jobs call old ∨
      ∃ new, (solver.search u jobs).Wanted (Rules.ofJob job call) job t new ∧
        t' = (solver.search u jobs).arrival t new ∧
        (x ∈ (solver.search u jobs).displacedBuilds t new ∨
          x ∈ (solver.search u jobs).displacedByObsoletes t new) := by
  have hother : job.kind ≠ .erase := by
    rcases hkind with hkind | hkind <;> rw [hkind] <;> decide
  rcases h.stays_or_leaves hx with hstays | ⟨-, hallowed⟩ | ⟨herase, -⟩ | hdisplaced
  · exact .inl hstays
  · exact .inr (.inl (.erased hjob (hallowed.resolve_right hother)))
  · exact absurd herase hother
  · exact .inr (.inr hdisplaced)

theorem Step.mem_or_sinks (h : (solver.search u jobs).Step (Rules.ofJob job call) job t t')
    (hinstalled : old ∈ u.installed) (hfixed : ∀ new, ¬ solver.TakesPlace u new old)
    (hold : old ∈ t.present) : old ∈ t'.present ∨ solver.Sinks u jobs call old := by
  rcases h.stays_or_sinks hjob hkind hold with
    hstays | hsinks | ⟨new, hwanted, -, hbuild | hobsolete⟩
  · exact .inl hstays
  · exact .inr hsinks
  · exact absurd (takesPlace_of_mem_displacedBuilds hwanted.mem_considered hbuild) (hfixed new)
  · obtain ⟨-, -, hname, hobsoletes⟩ := mem_displacedByObsoletes.mp hobsolete
    exact .inr (.obsoleted (standsFor_self hinstalled) hwanted.mem_considered hname hobsoletes)

section Replaced

variable (hdown : (Rules.ofJob job call).allowDowngrade = false)
  (ht : (solver.search u jobs).Coherent t) (hinstalled : old ∈ u.installed)
  {new : PackageId} (hnew : solver.TakesPlace u new old) (hx : x ∈ t.present)
  (hstands : Solver.StandsFor u x old)

include hdown ht hinstalled hnew hx hstands

omit hjob in
theorem Wanted.notOlder_or_sinks
    (h : (solver.search u jobs).Wanted (Rules.ofJob job call) job t y)
    (hname : (u.get y).name = (u.get old).name)
    (hfamily : (u.get y).sameArchFamily (u.get old) = true)
    (havailable : solver.isInstallonly (u.get y) = true → y ∉ u.installed) :
    (u.get y).evr.older (u.get old).evr = false ∨ solver.Sinks u jobs call old := by
  by_cases holder : (u.get y).evr.older (u.get old).evr = true
  · right
    rcases h.underbids hkind hdown ht hx hstands hname hfamily holder havailable with
      hunderbids | hends
    · exact .underbid hnew hunderbids
    · exact .estranged hnew
        ⟨h.mem_considered, u.installed_considered old hinstalled, hstands.considered⟩
        ⟨hname, rfl, hstands.name⟩ ⟨hfamily, hstands.family⟩ hends
  · exact .inl (Bool.eq_false_iff.mpr holder)

theorem Step.standsFor_or_sinks
    (h : (solver.search u jobs).Step (Rules.ofJob job call) job t t') :
    (∃ x ∈ t'.present, Solver.StandsFor u x old) ∨ solver.Sinks u jobs call old := by
  rcases h.stays_or_sinks hjob hkind hx with
    hstays | hsinks | ⟨id, hwanted, rfl, hbuild | hobsolete⟩
  · exact .inl ⟨x, hstays, hstands⟩
  · exact .inr hsinks
  · -- the build that displaces `x` stands for the package itself
    have hplace : solver.TakesPlace u id x :=
      takesPlace_of_mem_displacedBuilds hwanted.mem_considered hbuild
    have hname := hplace.name.symm.trans hstands.name
    by_cases hfamily : (u.get id).sameArchFamily (u.get old) = true
    · have hsingle : solver.isInstallonly (u.get id) = true → id ∉ u.installed :=
        fun hseveral => absurd (hseveral.symm.trans hplace.single) (by decide)
      refine (hwanted.notOlder_or_sinks hkind hdown ht hinstalled hnew hx hstands hname hfamily
        hsingle).imp_left fun hnot => ?_
      have hfamily' := (Package.sameArchFamily_comm _ _).trans hfamily
      exact ⟨id, mem_arrival.mpr (.inr rfl), hplace.considered, hname, hfamily', hnot⟩
    · exact .inr (.estranged hnew
        ⟨hplace.considered, hstands.considered, u.installed_considered old hinstalled⟩
        ⟨hname, hstands.name, rfl⟩
        ⟨hplace.family, (Package.sameArchFamily_comm _ _).trans hstands.family⟩
        (Bool.eq_false_iff.mpr hfamily))
  · obtain ⟨-, -, hname, hobsoletes⟩ := mem_displacedByObsoletes.mp hobsolete
    exact .inr (.obsoleted hstands hwanted.mem_considered hname hobsoletes)

omit hjob in
theorem Step.notMem_or_sinks
    (h : (solver.search u jobs).Step (Rules.ofJob job call) job t t')
    (hy : y ∉ u.installed) (hname : (u.get y).name = (u.get old).name)
    (hfamily : (u.get y).sameArchFamily (u.get old) = true)
    (holder : (u.get y).evr.older (u.get old).evr = true) (habsent : y ∉ t.present) :
    y ∉ t'.present ∨ solver.Sinks u jobs call old := by
  rcases h.subset_or_arrival with hsub | ⟨id, hwanted, -, -, rfl⟩
  · exact .inl fun hmem => habsent (hsub y hmem)
  · by_cases heq : y = id
    · subst heq
      rcases hwanted.notOlder_or_sinks hkind hdown ht hinstalled hnew hx hstands hname hfamily
        (fun _ => hy) with hnot | hsinks
      · exact absurd (holder.symm.trans hnot) (by decide)
      · exact .inr hsinks
    · exact .inl fun hmem => habsent ((mem_arrival.mp hmem).resolve_right heq).1

end Replaced

end Upgrade

end Search

namespace Solver

variable {solver : Solver} {u : Universe} {jobs : List Job} {call : Demands} {d : Decisions}

/-- Where all jobs are upgrades that may not move down, a plan moves a package down only in the
ways that are listed. -/
theorem exists_sinks_of_downgrade (h : (solver.solve u jobs call).outcome = .ok d)
    (hjobs : ∀ job ∈ jobs, (job.kind = .upgrade ∨ job.kind = .upgradeAll) ∧
      job.demands.allowDowngrade = false) (hcall : call.allowDowngrade = false) {op : Operation}
    (hop : op ∈ (Plan.materialize u d).operations) (hkind : op.kind = .downgrade) :
    ∃ old ∈ u.installed, op.replaced = some old ∧ solver.Sinks u jobs call old := by
  obtain ⟨old, hinstalled, hgone, hreplaced, hname, hfamily, holder⟩ :=
    Plan.downgrade_replaces hop hkind
  obtain ⟨hinstall, havailable⟩ := Plan.mem_install_of_isInbound hop (by rw [hkind]; rfl)
  refine ⟨old, hinstalled, hreplaced, Classical.byContradiction fun hno => ?_⟩
  have hrules : ∀ job ∈ jobs, (Rules.ofJob job call).allowDowngrade = false := by
    intro job hjob
    obtain ⟨hupgrade, hdown⟩ := hjobs job hjob
    rcases hupgrade with hupgrade | hupgrade <;>
      simp [Rules.ofJob, hupgrade, hdown, hcall]
  obtain ⟨t, hrun, hsystem, herase⟩ := exists_run h
  have hpresent := PackageSet.mem_def.mp hinstalled
  have hnotPresent := mt PackageSet.mem_def.mpr havailable
  -- a package that can be replaced is followed through the builds that take its place
  by_cases hplace : ∃ new, solver.TakesPlace u new old
  · obtain ⟨new, hnew⟩ := hplace
    have hinvariant := hrun.preserves
      (P := fun t => (∃ x ∈ t.present, StandsFor u x old) ∧ op.package ∉ t.present)
      Search.coherent_initial ⟨⟨old, hpresent, Search.standsFor_self hinstalled⟩, hnotPresent⟩ ?_
    · refine hinvariant.2.2 ?_
      exact hsystem ▸ Decisions.mem_system.mpr (.inr hinstall)
    · rintro job hadmitted t₁ t₂ ht ⟨⟨x, hx, hstands⟩, habsent⟩ hstep
      have hjob := mem_of_mem_admitted hadmitted
      have hupgrade := (hjobs job hjob).1
      have hdown := hrules job hjob
      have hfamily' := (Package.sameArchFamily_comm _ _).trans hfamily
      have hstays := hstep.standsFor_or_sinks hjob hupgrade hdown ht hinstalled hnew hx hstands
      have haway := hstep.notMem_or_sinks hupgrade hdown ht hinstalled hnew hx hstands havailable
        hname.symm hfamily' holder habsent
      exact ⟨hstays.resolve_right hno, haway.resolve_right hno⟩
  · have hfixed : ∀ new, ¬ solver.TakesPlace u new old := fun new hnew => hplace ⟨new, hnew⟩
    have hinvariant := hrun.preserves (P := fun t => old ∈ t.present) Search.coherent_initial
      hpresent fun job hadmitted _ _ _ hold hstep =>
        have hjob := mem_of_mem_admitted hadmitted
        (hstep.mem_or_sinks hjob (hjobs job hjob).1 hinstalled hfixed hold).resolve_right hno
    exact herase old hgone hinvariant.2

def upgradeEverything : List Job := [{ kind := .upgradeAll, spec := "*", target := .all }]

/-- Two builds of a library are installed, and one between them is available. -/
def libraryBuilds : Universe :=
  .sample [.noarch "library" "1", .noarch "library" "3"] [.noarch "library" "2"]
    (by decide +kernel)

def libraryBetween : Decisions where
  install := [2]
  erase := [0, 1]
  reasons := .ofList [(2, .unknown)]

theorem libraryBetween_sinks : ∃ old ∈ libraryBuilds.installed, some 1 = some old ∧
    (Solver.mk [] [] 100 none).Sinks libraryBuilds upgradeEverything {} old := by
  have hsolve : ((Solver.mk [] [] 100 none).solve libraryBuilds upgradeEverything {}).outcome =
      .ok libraryBetween := eq_ok_of_toOption (by decide +kernel)
  have hop : (⟨.downgrade, 2, some 1, .unknown⟩ : Operation) ∈
      (Plan.materialize libraryBuilds libraryBetween).operations := by decide +kernel
  exact exists_sinks_of_downgrade hsolve (by decide) rfl hop rfl

/-- Two mailers are installed, and an older build of the one obsoletes the other. -/
def mailers : Universe :=
  .sample [.noarch "mail" "3", .noarch "webmail" "1"]
    [.noarch "mail" "2" [("obsoletes", "webmail")]] (by decide +kernel)

def mailLowered : Decisions where
  install := [2]
  erase := [0, 1]
  obsoletes := [(2, 1)]
  reasons := .ofList [(2, .unknown)]

/-- The upgrade of the obsoleted mailer lowers the other one. -/
theorem mailLowered_downgrade :
    ((Solver.mk [] [] 100 none).solve mailers upgradeEverything {}).outcome = .ok mailLowered ∧
    (∀ job ∈ upgradeEverything, (job.kind = .upgrade ∨ job.kind = .upgradeAll) ∧
      job.demands.allowDowngrade = false) ∧
    (⟨.downgrade, 2, some 0, .unknown⟩ : Operation) ∈
      (Plan.materialize mailers mailLowered).operations := by
  refine ⟨eq_ok_of_toOption (by decide +kernel), by decide, ?_⟩
  decide +kernel

end Solver

end Depsolve
