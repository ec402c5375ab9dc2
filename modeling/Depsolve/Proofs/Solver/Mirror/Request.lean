import Depsolve.Proofs.Solver.Mirror.Jobs
import Depsolve.Request
import Mathlib.Data.List.Forall2
/-!
# The same request over a larger universe

A selector looks at the record of each considered package and at nothing else. So
it selects the renamed packages over a universe in which another one is embedded,
and the jobs that a request makes of both universes mirror each other.
-/
namespace Depsolve

/-- The filters that look at the record of a package and at nothing else. -/
def Filter.readsRecord : Filter → Bool
  | .ids _ | .upgrades | .downgrades | .latest | .priority => false
  | _ => true

theorem Filter.accepts_content {x : Filter} (hx : x.readsRecord = true) (u v : Universe)
    (p : Package) : x.accepts u p = x.accepts v p.content := by
  cases x <;> first | rfl | cases hx

theorem Query.apply_of_readsRecord {x : Filter} (hx : x.readsRecord = true) (u : Universe)
    (base : PackageSet) : apply u x base = base.filter fun id => x.accepts u (u.get id) := by
  cases x <;> first | rfl | cases hx

theorem Query.nothing_members (q : Query) : q.nothing.result.members = ∅ := by
  ext id
  rw [← PackageSet.mem_def]
  show id ∈ q.result.filter (fun id => q.pool.emptySet.contains (q.pool.get id).id) ↔
    id ∈ (∅ : IdSet)
  rw [PackageSet.mem_filter]
  constructor
  · rintro ⟨-, hin⟩
    exact absurd hin (PackageSet.not_mem_empty _ _ _)
  · intro hin
    exact absurd hin (IdSet.not_mem_empty id)

/-- The same query over a universe in which another one is embedded. -/
structure Query.Mirrors (f : Renaming) (q q' : Query) : Prop where
  pool : q.pool.Embeds q'.pool f
  result : q'.result.members = q.result.members.rename f

namespace Query.Mirrors

variable {f : Renaming} {q q' : Query}

theorem considered {v u : Universe} (h : v.Embeds u f) :
    (Query.considered v).Mirrors f (Query.considered u) := ⟨h, h.considered_members⟩

theorem filter (h : q.Mirrors f q') {x : Filter} (hx : x.readsRecord = true) :
    (q.filter x).Mirrors f (q'.filter x) := by
  refine ⟨h.pool, ?_⟩
  have haccepts : ∀ i, x.accepts q'.pool (q'.pool.get (f i)) =
      x.accepts q.pool (q.pool.get i) := by
    intro i
    rw [Filter.accepts_content hx q'.pool q.pool, h.pool.content,
      ← Filter.accepts_content hx q.pool q.pool]
  show (apply q'.pool x q'.result).members = (apply q.pool x q.result).members.rename f
  rw [apply_of_readsRecord hx, apply_of_readsRecord hx]
  apply PackageSet.members_eq_rename
  intro id
  rw [PackageSet.mem_filter, PackageSet.mem_def, h.result, IdSet.mem_rename]
  simp only [← PackageSet.mem_def]
  constructor
  · rintro ⟨⟨i, hi, rfl⟩, hpass⟩
    exact ⟨i, PackageSet.mem_filter.mpr ⟨hi, (haccepts i).symm.trans hpass⟩, rfl⟩
  · rintro ⟨i, hi, rfl⟩
    obtain ⟨hin, hpass⟩ := PackageSet.mem_filter.mp hi
    exact ⟨⟨i, hin, rfl⟩, (haccepts i).trans hpass⟩

theorem nothing (h : q.Mirrors f q') : q.nothing.Mirrors f q'.nothing := by
  refine ⟨h.pool, ?_⟩
  rw [nothing_members, nothing_members, IdSet.rename_empty]

theorem isEmpty (h : q.Mirrors f q') : q'.result.isEmpty = q.result.isEmpty := by
  simp only [PackageSet.isEmpty_eq_members, h.result, IdSet.isEmpty_rename]

end Query.Mirrors

namespace Selector

variable {f : Renaming} {v u : Universe} (sel : Selector)

theorem base_mirrors (h : v.Embeds u f) : (sel.base v).Mirrors f (sel.base u) := by
  -- each part that is present adds one filter
  rw [base, base]
  cases sel.arch <;> cases sel.repo <;> cases sel.evr <;>
    repeat first | exact .considered h | refine Query.Mirrors.filter ?_ rfl

theorem firstNonempty?_mirrors {qs qs' : List Query}
    (h : List.Forall₂ (Query.Mirrors f) qs qs') :
    Option.Rel (Query.Mirrors f) (firstNonempty? qs) (firstNonempty? qs') := by
  induction h with
  | nil => exact .none
  | @cons q q' rest rest' hq hrest ih =>
    rw [firstNonempty?, firstNonempty?, List.find?_cons, List.find?_cons, hq.isEmpty]
    split
    · exact .some hq
    · exact ih

theorem namedQueries_mirrors {base base' : Query} (h : base.Mirrors f base') :
    List.Forall₂ (Query.Mirrors f) (sel.namedQueries base) (sel.namedQueries base') := by
  rw [namedQueries, namedQueries]
  split
  · rw [List.forall₂_map_left_iff, List.forall₂_map_right_iff, List.forall₂_same]
    intro r _
    exact h.filter rfl
  · exact .cons (h.filter rfl) .nil
  · exact .nil

theorem query_mirrors (h : v.Embeds u f) : (sel.query v).Mirrors f (sel.query u) := by
  have hbase := sel.base_mirrors h
  have hnamed := firstNonempty?_mirrors (sel.namedQueries_mirrors hbase)
  simp only [query]
  split
  · cases sel.provides with
    | none => exact hbase.nothing
    | some d => exact hbase.filter rfl
  · generalize firstNonempty? (sel.namedQueries (sel.base v)) = found at hnamed ⊢
    generalize firstNonempty? (sel.namedQueries (sel.base u)) = found' at hnamed ⊢
    cases hnamed with
    | some hq => exact hq
    | none =>
      cases sel.fallback with
      | none => exact hbase.nothing
      | some d => exact hbase.filter rfl

theorem resolve_mirrors (h : v.Embeds u f) :
    (sel.resolve u).members = (sel.resolve v).members.rename f := (sel.query_mirrors h).result

end Selector

/-- The jobs that a request makes of a universe and of one in which it is embedded. -/
theorem Request.job_mirrors {f : Renaming} {v u : Universe} (h : v.Embeds u f) (request : Request)
    (demands : Demands) : (request.job v demands).Mirrors f (request.job u demands) := by
  cases request with
  | installDependency d => exact ⟨.dependency d, rfl⟩
  | upgradeAll | distroSyncAll => exact ⟨.all, rfl⟩
  | install sel | installOptional sel | erase sel | upgrade sel | distroSync sel | downgrade sel
  | reasonChange sel reason | guard sel => exact ⟨.packages (sel.resolve_mirrors h), rfl⟩

end Depsolve
