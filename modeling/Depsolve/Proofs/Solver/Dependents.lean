import Depsolve.Proofs.Solver.AnyOrder
import Depsolve.Proofs.Solver.Protection
/-!
# What one erase takes along

An erase leaves the largest set of installed packages that can do without its own. The same set
is left when packages that miss a provider are taken off one at a time, whichever of them goes
first. Only what depends on an erased package, directly or through others that go, goes with it.
-/
namespace Depsolve

open Relation

namespace Universe

variable {u : Universe} {gone : PackageId → Prop} {bare there next other : IdSet} {p : PackageId}

variable (u) in
/-- A package that was sound when all was there misses a provider, and goes. -/
inductive Drops : IdSet → IdSet → Prop
  | drop {there : IdSet} {p : PackageId} {d : Dependency} (hp : p ∈ there)
      (hsound : u.Sound u.installed.members p) (hd : d ∈ (u.get p).requires)
      (hmissing : ∀ q ∈ u.whatProvides d, q ∉ there) : Drops there (there.erase p)

theorem Drops.subset (h : u.Drops there next) : ∀ p ∈ next, p ∈ there := by
  cases h with
  | drop =>
    intro p hp
    exact (IdSet.mem_erase.mp hp).1

theorem Drops.keeps (h : u.Drops there next) (hstands : u.Stands other)
    (hsubset : ∀ p ∈ other, p ∈ there) : ∀ p ∈ other, p ∈ next := by
  cases h with
  | @drop lost d hlost hsound hd hmissing =>
    intro p hp
    rw [IdSet.mem_erase]
    refine ⟨hsubset p hp, ?_⟩
    intro heq
    subst heq
    obtain ⟨q, hprovides, hq⟩ := hstands.provided p hp hsound d hd
    exact hmissing q hprovides (hsubset q hq)

theorem drops_keep (h : ReflTransGen u.Drops bare there) (hstands : u.Stands other)
    (hsubset : ∀ p ∈ other, p ∈ bare) : ∀ p ∈ other, p ∈ there := by
  induction h with
  | refl => exact hsubset
  | tail _ hlast ih => exact hlast.keeps hstands ih

theorem drops_subset (h : ReflTransGen u.Drops bare there) : ∀ p ∈ there, p ∈ bare := by
  induction h with
  | refl => exact fun _ hp => hp
  | tail _ hlast ih => exact fun p hp => ih p (hlast.subset p hp)

theorem stands_of_not_drops (hinstalled : ∀ p ∈ there, p ∈ u.installed)
    (hdone : ∀ next, ¬ u.Drops there next) : u.Stands there where
  installed := hinstalled
  provided := by
    intro p hp hsound d hd
    by_contra hnone
    apply hdone (there.erase p)
    apply Drops.drop hp hsound hd
    intro q hprovides hq
    exact hnone ⟨q, hprovides, hq⟩

/-- Whichever packages go first, what is left in the end is the largest set that can be kept. -/
theorem remains_of_drops (hbare : ∀ p, p ∈ bare ↔ p ∈ u.installed ∧ ¬ gone p)
    (h : ReflTransGen u.Drops bare there) (hdone : ∀ next, ¬ u.Drops there next) :
    u.Remains gone there := by
  have hsubset := drops_subset h
  have hinstalled : ∀ p ∈ there, p ∈ u.installed :=
    fun p hp => ((hbare p).mp (hsubset p hp)).1
  constructor
  · exact stands_of_not_drops hinstalled hdone
  · intro p hp
    exact ((hbare p).mp (hsubset p hp)).2
  · intro other hstands hapart
    apply drops_keep h hstands
    intro p hp
    exact (hbare p).mpr ⟨hstands.installed p hp, hapart p hp⟩

theorem exists_drops (there : IdSet) :
    ∃ last, ReflTransGen u.Drops there last ∧ ∀ next, ¬ u.Drops last next := by
  -- on the number of packages, of which each drop takes one
  induction hsize : there.size generalizing there with
  | zero =>
    refine ⟨there, .refl, ?_⟩
    intro next h
    cases h with
    | drop hp =>
      have := IdSet.size_erase hp
      omega
  | succ n ih =>
    by_cases hdone : ∃ next, u.Drops there next
    · obtain ⟨next, h⟩ := hdone
      have hnext : next.size = n := by
        cases h with
        | drop hp =>
          have := IdSet.size_erase hp
          omega
      obtain ⟨last, hrest, hlast⟩ := ih next hnext
      exact ⟨last, .head h hrest, hlast⟩
    · exact ⟨there, .refl, not_exists.mp hdone⟩

theorem Remains.drops (h : u.Remains gone there)
    (hbare : ∀ p, p ∈ bare ↔ p ∈ u.installed ∧ ¬ gone p) : ReflTransGen u.Drops bare there := by
  obtain ⟨last, hdrops, hdone⟩ := exists_drops (u := u) bare
  have hlast := remains_of_drops hbare hdrops hdone
  rw [h.unique hlast]
  exact hdrops

/-- One package needs another that does not remain. -/
def NeedsLost (u : Universe) (there : IdSet) (p q : PackageId) : Prop :=
  u.Needs p q ∧ q ∈ u.installed ∧ q ∉ there

/-- What does not remain needs what is gone, directly or through others that do not remain. -/
theorem Remains.exists_chain (h : u.Remains gone there) (hp : p ∈ u.installed)
    (hout : p ∉ there) : ∃ target, gone target ∧ ReflTransGen (u.NeedsLost there) p target := by
  classical
  by_contra hnone
  let apart (q : PackageId) : Prop := ¬ ∃ target, gone target ∧
    ReflTransGen (u.NeedsLost there) q target
  -- with all that needs nothing of what is gone, what remains could still be kept
  let kept := u.installed.members.filter fun q => q ∈ there ∨ apart q
  have hmem : ∀ q, q ∈ kept ↔ q ∈ u.installed ∧ (q ∈ there ∨ apart q) := by
    intro q
    rw [IdSet.mem_filter, decide_eq_true_eq, PackageSet.mem_def]
  have hstands : u.Stands kept := by
    constructor
    · intro q hq
      exact ((hmem q).mp hq).1
    · intro q hq hsound d hd
      obtain ⟨-, hthere | hapart⟩ := (hmem q).mp hq
      · obtain ⟨c, hprovides, hc⟩ := h.stands.provided q hthere hsound d hd
        exact ⟨c, hprovides, (hmem c).mpr ⟨h.stands.installed c hc, .inl hc⟩⟩
      · obtain ⟨c, hprovides, hmember⟩ := hsound.provided d hd
        have hc := PackageSet.mem_def.mpr hmember
        refine ⟨c, hprovides, (hmem c).mpr ⟨hc, ?_⟩⟩
        by_cases hcthere : c ∈ there
        · exact .inl hcthere
        · right
          rintro ⟨target, hgone, hchain⟩
          exact hapart ⟨target, hgone, .head ⟨⟨d, hd, hprovides⟩, hc, hcthere⟩ hchain⟩
  have hkept : p ∈ kept := (hmem p).mpr ⟨hp, .inr hnone⟩
  refine hout (h.largest kept hstands ?_ p hkept)
  intro q hq hgone
  obtain ⟨-, hthere | hapart⟩ := (hmem q).mp hq
  · exact h.apart q hthere hgone
  · exact hapart ⟨q, hgone, .refl⟩

end Universe

namespace Solver

open Universe

variable {solver : Solver} {u : Universe} {job : Job} {call : Demands}

theorem erases_singleton (hkind : job.kind = .erase)
    (hmatch : ∃ p ∈ (solver.search u [job]).candidates job, p ∈ u.installed)
    (hfree : ∀ p, ¬ solver.Protects u [job] p) (hkeep : (Rules.ofJob job call).cleanDeps = false)
    (hbudget : u.installed.size ≤ solver.maxSteps) :
    (solver.search u [job]).Erases call [job] where
  kind := by simpa using hkind
  matched := by
    intro other hother
    cases List.mem_singleton.mp hother
    obtain ⟨p, hp, hinstalled⟩ := hmatch
    exact ⟨p, hp, Search.mem_initial.mpr hinstalled⟩
  keeps := by simpa using hkeep
  unguarded := by
    ext p
    constructor
    · intro hp
      exact absurd (mem_guardedPackages.mp hp) (hfree p)
    · intro hp
      exact absurd hp (IdSet.not_mem_empty p)
  budget := Nat.le_trans (Nat.le_of_eq (PackageSet.size_members u.installed)) hbudget

theorem asked_singleton : (solver.search u [job]).Asked [job] =
    fun p => p ∈ (solver.search u [job]).candidates job := by
  funext p
  simp [Search.Asked]

def spared (solver : Solver) (u : Universe) (job : Job) : IdSet :=
  u.installed.members.diff (.ofList ((solver.search u [job]).candidates job))

theorem mem_spared {p : PackageId} : p ∈ solver.spared u job ↔
    p ∈ u.installed ∧ p ∉ (solver.search u [job]).candidates job := by
  simp [spared, PackageSet.mem_def]

theorem problems_of_singleton (h : (solver.search u [job]).Erases call [job]) :
    (solver.solve u [job] call).problems = [] := by
  rw [List.eq_nil_iff_forall_not_mem]
  intro x hx
  obtain ⟨before, other, later, hjobs, -, hspent, -⟩ :=
    (mem_problems_of_erases h (.refl _) x).mp hx
  cases before with
  | nil =>
    cases hjobs
    obtain ⟨p, hp, hinstalled⟩ := h.matched job List.mem_cons_self
    apply hspent p hp
    rw [← Search.remains_initial.mem_iff]
    exact hinstalled
  | cons first before => simp at hjobs

theorem mem_erase_of_decisions {s : Search} {t : Trial} {p : PackageId}
    (hp : p ∈ (s.decisions t).erase) :
    p ∈ s.pool.installed ∧ p ∉ (s.decisions t).system s.pool := by
  rw [Search.decisions_system]
  have hgone := IdSet.mem_diff.mp (IdSet.mem_toList.mp hp)
  exact ⟨Search.mem_initial.mp hgone.1, hgone.2⟩

/-- An erase that is about installed packages, alone in its goal, succeeds. It leaves the largest
set of installed packages that can do without its own. Whatever else is erased needs one of them,
directly or through others that are erased. Packages that miss a provider may go in any order. -/
theorem solve_erases_exactly (hkind : job.kind = .erase)
    (hmatch : ∃ p ∈ (solver.search u [job]).candidates job, p ∈ u.installed)
    (hfree : ∀ p, ¬ solver.Protects u [job] p) (hkeep : (Rules.ofJob job call).cleanDeps = false)
    (hbudget : u.installed.size ≤ solver.maxSteps) :
    ∃ d, (solver.solve u [job] call).outcome = .ok d ∧ d.install = [] ∧
      u.Remains (fun p => p ∈ (solver.search u [job]).candidates job) (d.system u) ∧
      (∀ p ∈ d.erase, ∃ target ∈ (solver.search u [job]).candidates job,
        ReflTransGen (u.NeedsLost (d.system u)) p target) ∧
      ReflTransGen u.Drops (solver.spared u job) (d.system u) ∧
      ∀ there, ReflTransGen u.Drops (solver.spared u job) there → (∀ next, ¬ u.Drops there next) →
        there = d.system u := by
  have herases := erases_singleton hkind hmatch hfree hkeep hbudget
  obtain ⟨hinstall, hremains⟩ := herases.decisions_spec
  rw [asked_singleton] at hremains
  have houtcome := outcome_of_erases herases (.refl _)
  rw [problems_of_singleton herases] at houtcome
  refine ⟨_, houtcome, hinstall, hremains, ?_, hremains.drops fun _ => mem_spared, ?_⟩
  · intro p hp
    obtain ⟨hinstalled, hout⟩ := mem_erase_of_decisions hp
    exact hremains.exists_chain hinstalled hout
  · intro there hdrops hdone
    exact (remains_of_drops (fun _ => mem_spared) hdrops hdone).unique hremains

/-- Two builds of a library, a server and a client that need each other, of which the client needs
the old build, a tool that gets by with either, and a game that was broken before. -/
def twoLibraries : Universe :=
  .sample
    [.noarch "libold" "1" [("provides", "lib = 1")], .noarch "libnew" "2" [("provides", "lib = 2")],
      .noarch "server" "1" [("requires", "client")],
      .noarch "client" "1" [("requires", "server, lib < 2")],
      .noarch "tool" "1" [("requires", "lib")], .noarch "game" "1" [("requires", "joystick")]]
    [.noarch "libold" "1.5" [("provides", "lib = 1.5")]] (by decide +kernel)

def eraseOldLibrary : Job :=
  { kind := .erase, spec := "libold", target := .packages (.ofIds 1 7 [0, 6]) }

def oldLibraryErased : Decisions where
  erase := [0, 2, 3]

/-- Server and client go together, although the one has a provider as long as the other stays. -/
theorem oldLibraryErased_exactly :
    ((Solver.mk [] ["kernel"] 6 none).solve twoLibraries [eraseOldLibrary] {}).outcome =
      .ok oldLibraryErased ∧
    twoLibraries.Remains (fun p => p ∈ ((Solver.mk [] ["kernel"] 6 none).search twoLibraries
      [eraseOldLibrary]).candidates eraseOldLibrary) (oldLibraryErased.system twoLibraries) ∧
    ∃ target ∈ ((Solver.mk [] ["kernel"] 6 none).search twoLibraries
      [eraseOldLibrary]).candidates eraseOldLibrary,
      ReflTransGen (twoLibraries.NeedsLost (oldLibraryErased.system twoLibraries)) 2 target := by
  have hfree : ∀ p,
      ¬ (Solver.mk [] ["kernel"] 6 none).Protects twoLibraries [eraseOldLibrary] p := by
    intro p hp
    have hguarded := mem_guardedPackages.mpr hp
    rw [show (Solver.mk [] ["kernel"] 6 none).guardedPackages twoLibraries [eraseOldLibrary] = ∅ by
      decide +kernel] at hguarded
    exact IdSet.not_mem_empty p hguarded
  have hkeep : (Rules.ofJob eraseOldLibrary {}).cleanDeps = false := by rfl
  obtain ⟨d, hsolve, -, hremains, hchain, -⟩ := solve_erases_exactly (by rfl)
    ⟨0, by decide +kernel, by decide +kernel⟩ hfree hkeep (by decide +kernel)
  have hsame : ((Solver.mk [] ["kernel"] 6 none).solve twoLibraries [eraseOldLibrary] {}).outcome =
      .ok oldLibraryErased := eq_ok_of_toOption (by decide +kernel)
  cases hsolve.symm.trans hsame
  exact ⟨hsame, hremains, hchain 2 (by decide)⟩

end Solver

end Depsolve
