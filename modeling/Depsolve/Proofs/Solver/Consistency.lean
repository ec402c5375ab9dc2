import Depsolve.Proofs.Solver.Solution
import Depsolve.Proofs.Universe.Sample
/-!
# Solutions are consistent

After every job the trial has no violation. Most moves end with a search for one;
the others cannot make one, because they pin or mark packages or remove packages
that nothing needs.
-/
namespace Depsolve

namespace Search

variable {s : Search} {r : Rules} {job : Job} {t t' : Trial} {id : PackageId}

theorem firstViolation?_congr (h : t'.present = t.present) :
    s.firstViolation? t' = s.firstViolation? t := by
  rw [firstViolation?, firstViolation?, h]

/-- An unneeded package can go: nothing that stays requires what it provides, and conflicts
can only disappear. -/
theorem firstViolation?_of_isUnneeded (h : s.firstViolation? t = none)
    (hunneeded : s.isUnneeded t id = true) :
    s.firstViolation? { t with present := t.present.erase id } = none := by
  have hneeded := (isUnneeded_iff.mp hunneeded).2.2.2.2.2
  rw [firstViolation?_eq_none] at h ⊢
  intro p hp htolerated
  obtain ⟨hpresent, hne⟩ := IdSet.mem_erase.mp hp
  have hsound := h p hpresent htolerated
  constructor
  · intro d hd
    obtain ⟨q, hprovides, hq⟩ := hsound.provided d hd
    -- the provider is not the package that goes, for `p` stays and requires it
    have hqid : q ≠ id := fun heq => hneeded p hpresent hne d hd (heq ▸ hprovides)
    exact ⟨q, hprovides, IdSet.mem_erase.mpr ⟨hq, hqid⟩⟩
  · intro d hd q hprovides hq
    exact hsound.peaceful d hd q hprovides (IdSet.mem_erase.mp hq).1

theorem Move.firstViolation?_eq_none (hmove : s.Move r job t t')
    (h : s.firstViolation? t = none) : s.firstViolation? t' = none := by
  cases hmove with
  | pin => exact (firstViolation?_congr rfl).trans h
  | install _ _ _ _ hchosen =>
    obtain ⟨_, -, -, hsettled⟩ := hchosen
    exact hsettled
  | replace _ _ _ hchosen =>
    obtain ⟨_, -, -, hsettled⟩ := hchosen
    exact hsettled
  | erase _ _ hmended => exact hmended.2
  | clean _ _ hunneeded => exact firstViolation?_of_isUnneeded h hunneeded
  | mark => exact (firstViolation?_congr rfl).trans h

theorem firstViolation?_initial :
    s.firstViolation? { present := s.pool.installed.members } = none := by
  rw [firstViolation?_eq_none]
  intro p hp htolerated
  by_contra hsound
  exact htolerated (mem_tolerated.mpr ⟨PackageSet.mem_def.mpr hp, hsound⟩)

end Search

namespace Solver

variable {solver : Solver} {u : Universe} {jobs : List Job} {call : Demands} {d : Decisions}

/-- Every package of a solution is sound in it unless it was installed and was not sound before. -/
theorem solve_sound (h : (solver.solve u jobs call).outcome = .ok d) {p : PackageId}
    (hp : p ∈ d.system u) (hbroken : ¬ (p ∈ u.installed ∧ ¬ u.Sound u.installed.members p)) :
    u.Sound (d.system u) p := by
  obtain ⟨t, hsettled, hsystem⟩ := solve_invariant
    (P := fun t => (solver.search u jobs).firstViolation? t = none) h
    Search.firstViolation?_initial fun _ _ _ _ h hmove => hmove.firstViolation?_eq_none h
  rw [hsystem] at hp ⊢
  refine Search.firstViolation?_eq_none.mp hsettled p hp fun htolerated => ?_
  exact hbroken (Search.mem_tolerated.mp htolerated)

/-- A tool with a library of its own, and an application that needs another one. -/
def toolAndApp : Universe :=
  .sample
    [.noarch "tool" "1" [("requires", "libtool")],
      .noarch "libtool" "1" [("reason", "dependency")]]
    [.noarch "app" "1" [("requires", "libapp"), ("conflicts", "libtool")],
      .noarch "libapp" "1"]
    (by decide +kernel)

/-- The tool goes together with its library, and the application comes. -/
def toolForApp : List Job :=
  [{ kind := .erase, spec := "tool", target := .packages (.ofIds 1 4 [0])
     demands := { cleanDeps := true } },
   { kind := .install, spec := "app", target := .packages (.ofIds 1 4 [2]) }]

def appForTool : Decisions where
  install := [2, 3]
  erase := [0, 1]
  order := [(3, 2)]
  reasons := .ofList [(2, .user), (3, .dependency)]

theorem appForTool_sound : toolAndApp.Sound (appForTool.system toolAndApp) 2 := by
  have hsolve : ((Solver.mk [] [] 100 none).solve toolAndApp toolForApp {}).outcome =
      .ok appForTool := eq_ok_of_toOption (by decide +kernel)
  exact solve_sound hsolve (by decide +kernel) fun hbroken => absurd hbroken.1 (by decide +kernel)

end Solver

end Depsolve
