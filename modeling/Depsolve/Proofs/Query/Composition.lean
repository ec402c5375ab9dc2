import Depsolve.Proofs.PackageSet.Extent
import Depsolve.Proofs.Universe.Lookup
import Depsolve.Proofs.Universe.Sample
import Depsolve.Query
/-!
# Narrowing as set operations

Most filters look at one package at a time. What a step of such filters keeps does not depend
on the steps before it, so a query ends with the packages of its start that every step
accepts, in whatever order and however often the steps are taken.
-/
namespace Depsolve

namespace PackageSet

variable {s t : PackageSet}

structure PartOf (s t : PackageSet) : Prop where
  generation : s.generation = t.generation
  capacity : s.capacity = t.capacity
  subset : ∀ id ∈ s, id ∈ t

structure BelongsTo (s : PackageSet) (u : Universe) : Prop where
  generation : s.generation = u.generation
  capacity : s.capacity = u.size

theorem BelongsTo.lt_size {u : Universe} (h : s.BelongsTo u) {id : PackageId} (hid : id ∈ s) :
    id < u.size := h.capacity ▸ lt_capacity hid

theorem BelongsTo.of_partOf {u : Universe} (h : t.BelongsTo u) (hpart : s.PartOf t) :
    s.BelongsTo u where
  generation := hpart.generation.trans h.generation
  capacity := hpart.capacity.trans h.capacity

private theorem foldl_keep_space (p : Nat → Bool) (ids : List Nat) (s : PackageSet) :
    (ids.foldl (fun out id => if p id then out else out.remove id) s).generation = s.generation ∧
      (ids.foldl (fun out id => if p id then out else out.remove id) s).capacity =
        s.capacity := by
  induction ids generalizing s with
  | nil => exact ⟨rfl, rfl⟩
  | cons id ids ih =>
    rw [List.foldl_cons, (ih _).1, (ih _).2]
    split
    · exact ⟨rfl, rfl⟩
    · exact ⟨remove_generation s id, remove_capacity s id⟩

theorem filter_partOf (s : PackageSet) (p : Nat → Bool) : (s.filter p).PartOf s where
  generation := (foldl_keep_space p s.toList s).1
  capacity := (foldl_keep_space p s.toList s).2
  subset := fun _ hid => (mem_filter.mp hid).1

end PackageSet

/-- The filter looks at one package at a time. The two others compare packages with each
other. -/
def Filter.LooksAtOne (f : Filter) : Prop := f ≠ .latest ∧ f ≠ .priority

namespace Query

inductive Start where
  | considered
  | all
  | ofSet (set : PackageSet)

def Start.members (u : Universe) : Start → PackageSet
  | .considered => u.considered
  | .all => u.fullSet
  | .ofSet set => set

def Start.query (u : Universe) : Start → Except UniverseMismatch Query
  | .considered => .ok (Query.considered u)
  | .all => .ok (Query.all u)
  | .ofSet set => Query.ofSet u set

inductive Step where
  | one (f : Filter)
  | any (fs : List Filter)

def Step.filters : Step → List Filter
  | .one f => [f]
  | .any fs => fs

def Step.LooksAtOne (step : Step) : Prop := ∀ f ∈ step.filters, f.LooksAtOne

/-- Whether one of the filters of a step keeps a package. -/
def Step.Accepts (u : Universe) (p : Package) (step : Step) : Prop :=
  ∃ f ∈ step.filters, f.accepts u p = true

def take (q : Query) : Step → Query
  | .one f => q.filter f
  | .any fs => q.filterAny fs

def run (q : Query) (steps : List Step) : Query := steps.foldl take q

section Start

variable {u : Universe} {start : Start} {q : Query}

theorem query_eq_ok (h : start.query u = .ok q) :
    q.pool = u ∧ q.result = start.members u ∧ (start.members u).BelongsTo u := by
  cases start with
  | considered =>
    cases h
    exact ⟨rfl, rfl, u.considered_generation, u.considered_capacity⟩
  | all =>
    cases h
    exact ⟨rfl, rfl, rfl, rfl⟩
  | ofSet set =>
    simp only [Start.query, ofSet, PackageSet.check] at h
    split at h
    · next hspace =>
      cases h
      exact ⟨rfl, rfl, hspace.1.symm, hspace.2.symm⟩
    · cases h

end Start

section Steps

variable {u : Universe} {f : Filter} {base : PackageSet} {q : Query} {step : Step}
  {steps : List Step} {id : PackageId}

theorem apply_of_looksAtOne (h : f.LooksAtOne) :
    apply u f base = base.filter fun id => f.accepts u (u.get id) := by
  obtain ⟨hlatest, hpriority⟩ := h
  cases f with
  | latest => exact absurd rfl hlatest
  | priority => exact absurd rfl hpriority
  | _ => rfl

theorem mem_apply (h : f.LooksAtOne) :
    id ∈ apply u f base ↔ id ∈ base ∧ f.accepts u (u.get id) = true := by
  rw [apply_of_looksAtOne h, PackageSet.mem_filter]

theorem mem_filter (h : f.LooksAtOne) : id ∈ (q.filter f).result ↔
    id ∈ q.result ∧ f.accepts q.pool (q.pool.get id) = true := mem_apply h

@[simp] theorem take_pool (q : Query) (step : Step) : (q.take step).pool = q.pool := by
  cases step <;> rfl

theorem mem_take (h : step.LooksAtOne) :
    id ∈ (q.take step).result ↔ id ∈ q.result ∧ step.Accepts q.pool (q.pool.get id) := by
  cases step with
  | one f =>
    have hf : f.LooksAtOne := h f List.mem_cons_self
    simp [take, mem_filter hf, Step.Accepts, Step.filters]
  | any fs =>
    -- what one of the filters keeps is in the result already
    have hkept : ∀ f ∈ fs, (apply q.pool f q.result).contains id = true ↔
        id ∈ q.result ∧ f.accepts q.pool (q.pool.get id) = true := fun f hf => mem_apply (h f hf)
    simp only [take, filterAny, PackageSet.mem_filter, List.any_map, List.any_eq_true,
      Function.comp_apply, Step.Accepts, Step.filters]
    constructor
    · rintro ⟨hid, f, hf, hin⟩
      exact ⟨hid, f, hf, ((hkept f hf).mp hin).2⟩
    · rintro ⟨hid, f, hf, haccepts⟩
      exact ⟨hid, f, hf, (hkept f hf).mpr ⟨hid, haccepts⟩⟩

theorem take_partOf (h : step.LooksAtOne) : (q.take step).result.PartOf q.result := by
  cases step with
  | one f =>
    have hf : f.LooksAtOne := h f List.mem_cons_self
    simp only [take, filter, apply_of_looksAtOne hf]
    exact PackageSet.filter_partOf ..
  | any fs => exact PackageSet.filter_partOf ..

theorem run_append (q : Query) (before after : List Step) :
    q.run (before ++ after) = (q.run before).run after := List.foldl_append

@[simp] theorem run_pool (q : Query) (steps : List Step) : (q.run steps).pool = q.pool := by
  induction steps generalizing q with
  | nil => rfl
  | cons step steps ih => exact (ih _).trans (take_pool q step)

theorem mem_run (h : ∀ step ∈ steps, step.LooksAtOne) :
    id ∈ (q.run steps).result ↔
      id ∈ q.result ∧ ∀ step ∈ steps, step.Accepts q.pool (q.pool.get id) := by
  induction steps generalizing q with
  | nil => simp [run]
  | cons step steps ih =>
    have hstep : step.LooksAtOne := h step List.mem_cons_self
    have hsteps : ∀ step ∈ steps, step.LooksAtOne := fun s hs => h s (List.mem_cons_of_mem _ hs)
    rw [run, List.foldl_cons, ← run, ih hsteps, mem_take hstep, take_pool,
      List.forall_mem_cons, and_assoc]

theorem run_partOf (h : ∀ step ∈ steps, step.LooksAtOne) :
    (q.run steps).result.PartOf q.result := by
  induction steps generalizing q with
  | nil => exact ⟨rfl, rfl, fun _ => id⟩
  | cons step steps ih =>
    have hfirst := take_partOf (q := q) (h step List.mem_cons_self)
    have hrest := ih (q := q.take step) fun s hs => h s (List.mem_cons_of_mem _ hs)
    exact ⟨hrest.generation.trans hfirst.generation, hrest.capacity.trans hfirst.capacity,
      fun id hid => hfirst.subset id (hrest.subset id hid)⟩

theorem run_congr {others : List Step} (h : ∀ step ∈ steps, step.LooksAtOne)
    (hsame : ∀ step, step ∈ others ↔ step ∈ steps) :
    (q.run others).result = (q.run steps).result := by
  have hothers : ∀ step ∈ others, step.LooksAtOne := fun step hin => h step ((hsame step).mp hin)
  have hfrom := run_partOf (q := q) h
  have hto := run_partOf (q := q) hothers
  apply PackageSet.ext_mem (hto.generation.trans hfrom.generation.symm)
    (hto.capacity.trans hfrom.capacity.symm)
  intro id
  rw [mem_run h, mem_run hothers]
  simp only [hsame]

end Steps

/-- A query narrowed by filters that look at one package ends with the packages of its start
that every step accepts. Order and repetition of the steps do not matter, and each step leaves
a part of what was there before it. -/
theorem run_narrows {u : Universe} {start : Start} {q : Query} (hstart : start.query u = .ok q)
    {steps : List Step} (hsteps : ∀ step ∈ steps, step.LooksAtOne) :
    (∀ id, id ∈ (q.run steps).result ↔
        id ∈ start.members u ∧ ∀ step ∈ steps, ∃ f ∈ step.filters, f.accepts u (u.get id) = true) ∧
      (∀ others : List Step, (∀ step, step ∈ others ↔ step ∈ steps) →
        (q.run others).result = (q.run steps).result) ∧
      ∀ before step after, steps = before ++ step :: after →
        (q.run (before ++ [step])).result.PartOf (q.run before).result := by
  obtain ⟨hpool, hresult, -⟩ := query_eq_ok hstart
  refine ⟨?_, fun others => run_congr hsteps, ?_⟩
  · intro id
    rw [mem_run hsteps, hpool, hresult]
    rfl
  · intro before step after heq
    rw [run_append]
    exact take_partOf (hsteps step (heq ▸ List.mem_append_right _ List.mem_cons_self))

/-- A tool that is installed, with a newer and an older build and a library beside it. -/
def toolAndLibrary : Universe :=
  Universe.sample [.noarch "tool" "2"]
    [.noarch "tool" "3", .noarch "tool" "1", .noarch "lib" "3"] (by decide +kernel)

/-- The newer and the older build are judged by the installed one, also once that is left out. -/
theorem toolBuilds_narrow :
    let steps := [Step.one (.installed false), Step.any [.upgrades, .downgrades]]
    Start.all.query toolAndLibrary = .ok (Query.all toolAndLibrary) ∧
      (∀ step ∈ steps, step.LooksAtOne) ∧
      ((Query.all toolAndLibrary).run steps).result.toList = [1, 2] ∧
      ((Query.all toolAndLibrary).run (steps.reverse ++ steps)).result =
        ((Query.all toolAndLibrary).run steps).result := by
  intro steps
  have hstart : Start.all.query toolAndLibrary = .ok (Query.all toolAndLibrary) := rfl
  have hsteps : ∀ step ∈ steps, step.LooksAtOne := by
    simp [steps, Step.LooksAtOne, Step.filters, Filter.LooksAtOne]
  obtain ⟨-, hsame, -⟩ := run_narrows hstart hsteps
  refine ⟨hstart, hsteps, by decide +kernel, hsame _ ?_⟩
  simp

end Query

end Depsolve
