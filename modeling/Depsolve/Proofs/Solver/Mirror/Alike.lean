import Depsolve.Goal
import Depsolve.Proofs.Solver.Mirror.Request
import Depsolve.Proofs.Solver.Mirror.Solve
import Depsolve.Proofs.Universe.Generation
/-!
# The same solution in another generation

Universes that differ in their generation alone mirror each other with every package at its
own place. A goal has the same plan or the same problems over both.
-/
namespace Depsolve

abbrev Renaming.inPlace : Renaming := RelEmbedding.refl _

theorem Reasons.rename_inPlace (rs : Reasons) : rs.rename .inPlace = rs := by
  cases rs
  simp [Reasons.rename]

theorem Decisions.rename_inPlace (d : Decisions) : d.rename .inPlace = d := by
  cases d
  simp [Decisions.rename, Reasons.rename_inPlace]

theorem Problem.rename_inPlace (p : Problem) : p.rename .inPlace = p := by
  cases p
  simp [Problem.rename]

theorem renameOutcome_inPlace (outcome : Except (List Problem) Decisions) :
    renameOutcome .inPlace outcome = outcome := by
  cases outcome with
  | ok d => rw [renameOutcome, Decisions.rename_inPlace]
  | error problems =>
    have hrename : Problem.rename Renaming.inPlace = id := funext Problem.rename_inPlace
    rw [renameOutcome, hrename, List.map_id]

/-- The same job, with its target in another generation. -/
abbrev Job.Alike (job job' : Job) : Prop := job.Mirrors .inPlace job'

/-- The same jobs over universes that differ in their generation alone. -/
structure Goal.Alike (g g' : Goal) : Prop where
  pool : g.pool.Alike g'.pool
  jobs : List.Forall₂ Job.Alike g.jobs g'.jobs
  frozen : g'.frozen = g.frozen

namespace Goal.Alike

variable {g g' : Goal}

theorem result (h : g.Alike g') (solver : Solver) (demands : Demands) :
    (g'.resolve solver demands).result = (g.resolve solver demands).result := by
  have houtcome : (solver.solve g'.pool g'.jobs demands).outcome =
      (solver.solve g.pool g.jobs demands).outcome := by
    rw [solver.outcome_mirrors h.pool.embeds h.jobs, renameOutcome_inPlace]
  have hplan : Plan.materialize g'.pool = Plan.materialize g.pool :=
    funext (Plan.materialize_alike h.pool)
  simp only [Goal.resolve, houtcome, hplan]
  cases (solver.solve g.pool g.jobs demands).outcome <;> rfl

theorem freeze (h : g.Alike g') : g.freeze.Alike g'.freeze := ⟨h.pool, h.jobs, rfl⟩

theorem thaw (h : g.Alike g') : g.thaw.Alike g'.thaw := ⟨h.pool, h.jobs, rfl⟩

theorem reset (h : g.Alike g') : g.reset.Alike g'.reset := ⟨h.pool, .nil, rfl⟩

theorem start (u u' : Universe) (h : u.Alike u') :
    Goal.Alike { pool := u } { pool := u' } := ⟨h, .nil, rfl⟩

theorem add (h : g.Alike g') (r : Request) (demands : Demands) :
    Goal.Alike { g with jobs := g.jobs ++ [r.job g.pool demands] }
      { g' with jobs := g'.jobs ++ [r.job g'.pool demands] } where
  pool := h.pool
  jobs := List.rel_append h.jobs (.cons (r.job_mirrors h.pool.embeds demands) .nil)
  frozen := h.frozen

end Goal.Alike

end Depsolve
