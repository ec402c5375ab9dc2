import Depsolve.Proofs.Solver.Mirror.Jobs
import Depsolve.Solver.Precheck
import Mathlib.Data.List.Forall2
/-!
# The same checks over a larger universe

The problems that are visible before a search are the same, in the same words, for
jobs that mirror each other one by one. The packages that they name are renamed.
-/
namespace Depsolve

/-- The same problem about renamed packages. The message is left as it is. -/
def Problem.rename (f : Renaming) (p : Problem) : Problem :=
  { p with packages := p.packages.map f }

/-- The same jobs are left out, and the problems are about the renamed packages. -/
structure Precheck.Mirrors (f : Renaming) (c c' : Precheck) : Prop where
  skipped : c'.skipped = c.skipped
  problems : c'.problems = c.problems.map (Problem.rename f)

def Numbered (f : Renaming) (p p' : Nat × Job) : Prop := p'.1 = p.1 ∧ p.2.Mirrors f p'.2

namespace Precheck.Mirrors

variable {f : Renaming} {c c' : Precheck}

theorem refuse (h : c.Mirrors f c') (index : Nat) (p : Problem) :
    (c.refuse index p).Mirrors f (c'.refuse index (p.rename f)) := by
  constructor
  · exact congrArg (IdSet.insert · index) h.skipped
  · simp only [Precheck.refuse, h.problems, List.map_append, List.map_cons, List.map_nil]

theorem passOver (h : c.Mirrors f c') (index : Nat) (n n' : Note) :
    (c.passOver index n).Mirrors f (c'.passOver index n') :=
  ⟨congrArg (IdSet.insert · index) h.skipped, h.problems⟩

theorem skip (h : c.Mirrors f c') (index : Nat) :
    Precheck.Mirrors f { c with skipped := c.skipped.insert index }
      { c' with skipped := c'.skipped.insert index } :=
  ⟨congrArg (IdSet.insert · index) h.skipped, h.problems⟩

theorem contains_skipped (h : c.Mirrors f c') (index : Nat) :
    c'.skipped.contains index = c.skipped.contains index := by
  rw [h.skipped]

theorem foldl {check check' : Precheck → Nat → Job → Precheck}
    (hcheck : ∀ {c c' : Precheck} {job job' : Job} (index : Nat), c.Mirrors f c' →
      job.Mirrors f job' → (check c index job).Mirrors f (check' c' index job'))
    {jobs jobs' : List (Nat × Job)} (hjobs : List.Forall₂ (Numbered f) jobs jobs')
    (h : c.Mirrors f c') :
    (jobs.foldl (fun c p => check c p.1 p.2) c).Mirrors f
      (jobs'.foldl (fun c p => check' c p.1 p.2) c') := by
  induction hjobs generalizing c c' with
  | nil => exact h
  | @cons p p' rest rest' hp hrest ih =>
    have hfirst : (check c p.1 p.2).Mirrors f (check' c' p'.1 p'.2) := by
      rw [hp.1]
      exact hcheck p.1 h hp.2
    exact ih hfirst

end Precheck.Mirrors

namespace Job.Mirrors

variable {f : Renaming} {job job' : Job} (h : job.Mirrors f job')

include h

theorem spec_eq : job'.spec = job.spec := by
  rw [h.others]

theorem optional_eq : job'.optional = job.optional := by
  rw [h.others]

theorem demands_eq : job'.demands = job.demands := by
  rw [h.others]

theorem text_eq : job'.text = job.text := by
  rw [Job.text, h.kind_eq, h.spec_eq, h.optional_eq, Job.text]

end Job.Mirrors

namespace Search.Mirrors

variable {s s' : Search} {f : Renaming} (h : s.Mirrors s' f) {job job' : Job} {c c' : Precheck}

include h

theorem checkMatch (hc : c.Mirrors f c') (index : Nat) (hjob : job.Mirrors f job') :
    (s.checkMatch c index job).Mirrors f (s'.checkMatch c' index job') := by
  simp only [Search.checkMatch, hjob.kind_eq, hjob.target.eq_all, hjob.optional_eq, hjob.spec_eq,
    h.candidates hjob, List.isEmpty_map]
  split
  · exact hc
  · split
    · exact hc.passOver index _ _
    · exact hc.refuse index { kind := .noMatch, message := _ }

theorem contradiction {wanted wanted' erase erase' : Job} (hwanted : wanted.Mirrors f wanted')
    (herase : erase.Mirrors f erase') (names : List String) :
    s'.contradiction wanted' erase' names = (s.contradiction wanted erase names).rename f := by
  simp only [Search.contradiction, Problem.rename, hwanted.text_eq, herase.text_eq,
    h.candidates herase, List.filter_map, Function.comp_def, h.name]

theorem checkAgainst {others others' : List (Nat × Job)}
    (hothers : List.Forall₂ (Numbered f) others others') (hc : c.Mirrors f c') (index : Nat)
    {wanted wanted' : Job} (hwanted : wanted.Mirrors f wanted') :
    (s.checkAgainst index wanted others c).Mirrors f
      (s'.checkAgainst index wanted' others' c') := by
  induction hothers generalizing c c' with
  | nil => exact hc
  | @cons p p' rest rest' hp hrest ih =>
    obtain ⟨j, erase⟩ := p
    obtain ⟨j', erase'⟩ := p'
    obtain ⟨hplace, herase⟩ := hp
    simp only at hplace herase
    subst hplace
    simp only [Search.checkAgainst, herase.kind_eq, hc.contains_skipped, h.candidateNames herase,
      h.candidateNames hwanted, hwanted.optional_eq, h.contradiction hwanted herase]
    split
    · exact ih hc
    · split
      · exact ih hc
      · split
        · exact hc.passOver index _ _
        · exact ih ((hc.refuse index _).skip j')

theorem checkContradictions {others others' : List (Nat × Job)}
    (hothers : List.Forall₂ (Numbered f) others others') (hc : c.Mirrors f c') (index : Nat)
    (hjob : job.Mirrors f job') :
    (s.checkContradictions others c index job).Mirrors f
      (s'.checkContradictions others' c' index job') := by
  simp only [Search.checkContradictions, hjob.kind_eq, hc.contains_skipped]
  split
  · exact hc
  · exact h.checkAgainst hothers hc index hjob

theorem checkGuarded (hc : c.Mirrors f c') (index : Nat) (hjob : job.Mirrors f job') :
    (s.checkGuarded c index job).Mirrors f (s'.checkGuarded c' index job') := by
  have hhit : ((s.candidates job).map f).filter s'.guarded.contains =
      ((s.candidates job).filter s.guarded.contains).map f := by
    simp only [List.filter_map, Function.comp_def, h.guarded, IdSet.contains_rename]
  have hnames : ∀ ids : List PackageId, (ids.map f).map (fun id => (s'.get id).nevra) =
      ids.map fun id => (s.get id).nevra := by
    intro ids
    simp only [List.map_map, Function.comp_def, get, h.pool.nevra]
  simp only [Search.checkGuarded, h.candidates hjob, hhit, List.isEmpty_map, hnames,
    hjob.kind_eq, hc.contains_skipped, hjob.text_eq]
  split
  · exact hc
  · exact hc.refuse index { kind := .guarded, message := _, packages := _ }

omit h in
theorem numbered {jobs jobs' : List Job} (hjobs : List.Forall₂ (Job.Mirrors f) jobs jobs')
    (start : Nat) :
    List.Forall₂ (fun p p' => p.1.Mirrors f p'.1 ∧ p'.2 = p.2) (jobs.zipIdx start)
      (jobs'.zipIdx start) := by
  induction hjobs generalizing start with
  | nil => exact .nil
  | cons hjob hrest ih => exact .cons ⟨hjob, rfl⟩ (ih (start + 1))

theorem precheck {jobs jobs' : List Job} (hjobs : List.Forall₂ (Job.Mirrors f) jobs jobs') :
    (s.precheck jobs).Mirrors f (s'.precheck jobs') := by
  have hnumbered : List.Forall₂ (Numbered f) (jobs.zipIdx.map fun p => (p.2, p.1))
      (jobs'.zipIdx.map fun p => (p.2, p.1)) := by
    refine List.rel_map (fun p p' hp => ?_) (numbered hjobs 0)
    exact ⟨hp.2, hp.1⟩
  have hstart : Precheck.Mirrors f {} {} := ⟨rfl, rfl⟩
  have hmatch := Precheck.Mirrors.foldl (fun index hc hjob => h.checkMatch hc index hjob)
    hnumbered hstart
  have hcontradictions := Precheck.Mirrors.foldl
    (fun index hc hjob => h.checkContradictions hnumbered hc index hjob) hnumbered hmatch
  exact Precheck.Mirrors.foldl (fun index hc hjob => h.checkGuarded hc index hjob) hnumbered
    hcontradictions

end Search.Mirrors

end Depsolve
