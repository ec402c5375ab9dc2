import Depsolve.Proofs.Solver.Mirror.Attempt
/-!
# The same job over a larger universe

Two jobs mirror each other when they ask for the same, about the renamed packages.
A mirrored search has the renamed candidates for them, and it carries them out with
the renamed end and the same budget left.
-/
namespace Depsolve

/-- The same target over a universe with renamed packages. -/
inductive JobTarget.Mirrors (f : Renaming) : JobTarget → JobTarget → Prop
  | packages {set set' : PackageSet} (h : set'.members = set.members.rename f) :
      JobTarget.Mirrors f (.packages set) (.packages set')
  | dependency (d : Dependency) : JobTarget.Mirrors f (.dependency d) (.dependency d)
  | all : JobTarget.Mirrors f .all .all

theorem JobTarget.Mirrors.eq_all {f : Renaming} {target target' : JobTarget}
    (h : target.Mirrors f target') : (target' == .all) = (target == .all) := by
  cases h <;> rfl

/-- `job'` is `job` with its target over the other universe. -/
structure Job.Mirrors (f : Renaming) (job job' : Job) : Prop where
  target : job.target.Mirrors f job'.target
  others : job' = { job with target := job'.target }

theorem Job.Mirrors.kind_eq {f : Renaming} {job job' : Job} (h : job.Mirrors f job') :
    job'.kind = job.kind := by
  rw [h.others]

theorem Job.Mirrors.reason_eq {f : Renaming} {job job' : Job} (h : job.Mirrors f job') :
    job'.reason = job.reason := by
  rw [h.others]

namespace Search.Mirrors

variable {s s' : Search} {f : Renaming} (h : s.Mirrors s' f) {job job' : Job}
  (hjob : job.Mirrors f job')

include h

section Candidates

include hjob

theorem candidates : s'.candidates job' = (s.candidates job).map f := by
  rw [Search.candidates, Search.candidates]
  have htarget := hjob.target
  generalize job.target = target, job'.target = target' at htarget ⊢
  cases htarget with
  | packages hset =>
    simp only [PackageSet.toList_eq_members, hset, IdSet.toList_rename, List.filter_map,
      Function.comp_def, h.pool.contains_considered]
  | dependency d =>
    apply h.pool.filter_whatProvides
    · exact h.pool.contains_considered
    · intro id hid
      exact h.pool.exists_of_considered hid
  | all => simp only [h.initial, IdSet.toList_rename]

theorem names_candidates :
    (s'.candidates job').map (fun id => (s'.get id).name) =
      (s.candidates job).map fun id => (s.get id).name := by
  rw [h.candidates hjob, List.map_map]
  simp only [Function.comp_def, h.name]

theorem candidateNames : s'.candidateNames job' = s.candidateNames job := by
  rw [Search.candidateNames, h.names_candidates hjob, Search.candidateNames]

end Candidates

theorem newestOnly (ids : List PackageId) :
    s'.newestOnly (ids.map f) = (s.newestOnly ids).map f := by
  simp only [Search.newestOnly, List.filter_map, Function.comp_def, List.any_map, h.name, h.evr]

theorem installOrder (r : Rules) (hjob : job.Mirrors f job') (t : Trial) :
    s'.installOrder r job' (t.rename f) = (s.installOrder r job t).map f := by
  have hfree : ((s.candidates job).map f).filter (fun id => !(t.rename f).forbidden.contains id) =
      ((s.candidates job).filter fun id => !t.forbidden.contains id).map f := by
    simp only [List.filter_map, Function.comp_def, Trial.rename_forbidden, IdSet.contains_rename]
  have hchoices : ∀ ids : List PackageId,
      (if r.best then s'.newestOnly (ids.map f) else ids.map f) =
        (if r.best then s.newestOnly ids else ids).map f := by
    intro ids
    split
    · exact h.newestOnly ids
    · rfl
  simp only [Search.installOrder, h.candidates hjob, hfree, hchoices, h.policy]
  have htarget := hjob.target
  generalize job.target = target, job'.target = target' at htarget ⊢
  cases htarget with
  | dependency d => exact h.pool.preferNamed s.policy d.name _
  | packages hset => exact h.pool.prefer s.policy _
  | all => exact h.pool.prefer s.policy _

theorem install (r : Rules) (hjob : job.Mirrors f job') (t : Trial) (left : Nat) :
    (s.install r job t left).Mirrors f (s'.install r job' (t.rename f) left) := by
  have hfind : ((s.candidates job).map f).find? (t.rename f).present.contains =
      ((s.candidates job).find? t.present.contains).map f := by
    simp only [List.find?_map, Function.comp_def, Trial.rename_present, IdSet.contains_rename]
  rw [install_eq, install_eq, h.candidates hjob, hfind, h.installOrder r hjob, List.isEmpty_map]
  cases (s.candidates job).find? t.present.contains with
  | some id =>
    simp only [Option.map_some, pin_rename]
    exact .done (pin none t id) left
  | none =>
    simp only [Option.map_none]
    split
    · exact .fail (.notApplicable .everyMatchRemoved) left
    · exact h.chooseFirst r (some .user) t (s.installOrder r job t) none left

/-! ### Erasing -/

omit h in
theorem takeOff (t : Trial) (ids : List PackageId) :
    Search.takeOff (t.rename f) (ids.map f) =
      renameResult f (Trial.rename f) (Search.takeOff t ids) := by
  induction ids generalizing t with
  | nil => rfl
  | cons id rest ih =>
    rw [List.map_cons, Search.takeOff, Search.takeOff, Trial.rename_pinned, IdSet.contains_rename]
    split
    · rfl
    · rw [← ih]
      simp only [Trial.rename, IdSet.rename_erase, IdSet.rename_insert]

theorem any_requiresOf (i j : PackageId) :
    ((s'.links.requiresOf (f j)).any fun need => need.2.contains (f i)) =
      (s.links.requiresOf j).any fun need => need.2.contains i := by
  rw [Bool.eq_iff_iff, mem_requiresOf, mem_requiresOf, h.requires]
  simp only [h.pool.mem_whatProvides]

theorem neededBy (t : Trial) (i : PackageId) :
    s'.neededBy (t.rename f) (f i) = (s.neededBy t i).rename f := by
  apply IdSet.inter_rename
  intro j
  rw [IdSet.mem_foldl_union, IdSet.mem_foldl_union, requiresOf_eq, requiresOf_eq, h.requires]
  simp only [List.mem_map, exists_exists_and_eq_and, Links.mem_providers, h.pool.mem_whatProvides]
  exact or_congr_left (iff_of_false (IdSet.not_mem_empty _) (IdSet.not_mem_empty _))

theorem isUnneeded (t : Trial) (i : PackageId) :
    s'.isUnneeded (t.rename f) (f i) = s.isUnneeded t i := by
  have hreason : (s'.get (f i)).reason = (s.get i).reason := h.pool.apply_get (fun _ => rfl) i
  simp only [Search.isUnneeded, Trial.rename_reasons, Trial.rename_present, Trial.rename_pinned,
    Reasons.get?_rename, hreason, h.initial, h.guarded, IdSet.contains_rename, IdSet.rename_erase,
    IdSet.toList_rename, List.any_map, Function.comp_def, h.any_requiresOf]

theorem cleanFrom (fuel : Nat) (t : Trial) (queue : List PackageId) :
    (s'.cleanFrom fuel (t.rename f) (queue.map f)).1 = (s.cleanFrom fuel t queue).1.rename f := by
  -- on the fuel, which `cleanDeps` takes from the size of the trial, the same on both sides
  induction fuel generalizing t queue with
  | zero => rfl
  | succ fuel ih =>
    rw [Search.cleanFrom, Search.cleanFrom, List.dropWhile_map]
    simp only [Function.comp_def, h.isUnneeded]
    cases queue.dropWhile fun id => !s.isUnneeded t id with
    | nil => rfl
    | cons id rest =>
      have ht : ({ t.rename f with present := (t.rename f).present.erase (f id) } : Trial) =
          Trial.rename f { t with present := t.present.erase id } := by
        simp only [Trial.rename, IdSet.rename_erase]
      simp only [List.map_cons, IdSet.rename_ofList]
      rw [ht, h.neededBy, IdSet.rename_union, IdSet.toList_rename]
      exact ih _ _

theorem cleanDeps (t : Trial) (removed : List PackageId) :
    (s'.cleanDeps (t.rename f) (removed.map f)).1 = (s.cleanDeps t removed).1.rename f := by
  have hqueue := IdSet.foldl_union_rename (h.neededBy t) removed IdSet.empty
  rw [show IdSet.empty.rename f = IdSet.empty from IdSet.rename_empty] at hqueue
  rw [Search.cleanDeps, Search.cleanDeps, hqueue, IdSet.toList_rename, Trial.rename_present,
    IdSet.size_rename]
  exact h.cleanFrom _ t _

theorem erase (r : Rules) (hjob : job.Mirrors f job') (t : Trial) (left : Nat) :
    (s.erase r job t left).Mirrors f (s'.erase r job' (t.rename f) left) := by
  have htargets : ((s.candidates job).map f).filter (fun id =>
        s'.initial.contains id && (t.rename f).present.contains id) =
      ((s.candidates job).filter fun id =>
        s.initial.contains id && t.present.contains id).map f := by
    simp only [List.filter_map, Function.comp_def, h.initial, Trial.rename_present,
      IdSet.contains_rename]
  simp only [Search.erase, h.candidates hjob, htargets, List.isEmpty_map, takeOff]
  split
  · exact .fail (.notApplicable .noneInstalled) left
  · cases Search.takeOff t _ with
    | error e => exact .fail e left
    | ok bare =>
      simp only [renameResult_ok, h.settle]
      cases s.settle { r with eraseDependents := true } bare left with
      | overBudget => exact .fail .stepLimit 0
      | stuck e left => exact .fail e left
      | settled t₁ left =>
        simp only [Settlement.rename, Trial.rename_present, IdSet.rename_diff,
          IdSet.toList_rename]
        split
        · exact ⟨congrArg Except.ok (h.cleanDeps t₁ _), rfl⟩
        · exact .done t₁ left

/-! ### Moving to other builds -/

theorem movePool (hjob : job.Mirrors f job') : s'.movePool job' = (s.movePool job).map f := by
  have hfilter : ∀ ids : List PackageId, (ids.map f).filter (fun id => !(s'.get id).installed) =
      (ids.filter fun id => !(s.get id).installed).map f := by
    intro ids
    simp only [List.filter_map, Function.comp_def, get, h.pool.installed_flag]
  simp only [Search.movePool, h.candidates hjob, h.pool.considered_toList]
  have htarget := hjob.target
  generalize job.target = target, job'.target = target' at htarget ⊢
  cases htarget with
  | all => exact hfilter s.pool.considered.toList
  | dependency d => exact hfilter (s.candidates job)
  | packages hset => exact hfilter (s.candidates job)

theorem movable (hjob : job.Mirrors f job') (t : Trial) :
    s'.movable job' (t.rename f) = (s.movable job t).map f := by
  simp only [Search.movable, h.names_candidates hjob, h.initial, Trial.rename_present,
    IdSet.rename_inter, IdSet.toList_rename]
  have htarget := hjob.target
  generalize job.target = target, job'.target = target' at htarget ⊢
  cases htarget with
  | all => rfl
  | dependency d => simp only [List.filter_map, Function.comp_def, h.name]
  | packages hset => simp only [List.filter_map, Function.comp_def, h.name]

theorem sameFamily (i j : PackageId) : s'.sameFamily (f i) (f j) = s.sameFamily i j := by
  simp only [Search.sameFamily, h.name, h.sameArchFamily]

theorem replaces (t : Trial) (i j : PackageId) :
    s'.replaces (t.rename f) (f i) (f j) = s.replaces t i j := by
  simp only [Search.replaces, bne, beq_rename, Trial.rename_forbidden, IdSet.contains_rename,
    h.sameFamily]

theorem upgradeCandidates (r : Rules) (available : List PackageId) (t : Trial) (i : PackageId) :
    s'.upgradeCandidates r (available.map f) (t.rename f) (f i) =
      (s.upgradeCandidates r available t i).map f := by
  have hnewer : (available.map f).filter (fun c =>
        s'.replaces (t.rename f) (f i) c && (s'.get c).evr.newer (s'.get (f i)).evr) =
      (available.filter fun c =>
        s.replaces t i c && (s.get c).evr.newer (s.get i).evr).map f := by
    simp only [List.filter_map, Function.comp_def, h.replaces, h.evr]
  have hobsoletes : ∀ c, (s'.get (f c)).obsoletesPackage (s'.get (f i)) =
      (s.get c).obsoletesPackage (s.get i) := fun c => h.pool.apply_get₂ (fun _ _ => rfl) c i
  have hobsoleters : (s.obsoleters.map f).filter (fun c =>
        !(t.rename f).forbidden.contains c && (s'.get c).obsoletesPackage (s'.get (f i))) =
      (s.obsoleters.filter fun c =>
        !t.forbidden.contains c && (s.get c).obsoletesPackage (s.get i)).map f := by
    simp only [List.filter_map, Function.comp_def, Trial.rename_forbidden, IdSet.contains_rename,
      hobsoletes]
  have hfound : ∀ newer : List PackageId,
      (if newer.isEmpty then (s.obsoleters.filter fun c =>
          !t.forbidden.contains c && (s.get c).obsoletesPackage (s.get i)).map f
        else newer.map f) =
      (if newer.isEmpty then s.obsoleters.filter fun c =>
          !t.forbidden.contains c && (s.get c).obsoletesPackage (s.get i)
        else newer).map f := by
    intro newer
    split <;> rfl
  simp only [Search.upgradeCandidates, hnewer, h.obsoleters, hobsoleters, List.isEmpty_map,
    hfound, h.name, h.policy, h.pool.preferNamed]
  split
  · exact List.map_take.symm
  · rfl

theorem syncCandidates (r : Rules) (available : List PackageId) (t : Trial) (i : PackageId) :
    s'.syncCandidates r (available.map f) (t.rename f) (f i) =
      (s.syncCandidates r available t i).map f := by
  have hpreferred : s'.policy.prefer s'.pool
        ((available.map f).filter (s'.replaces (t.rename f) (f i))) =
      (s.policy.prefer s.pool (available.filter (s.replaces t i))).map f := by
    rw [h.policy, ← h.pool.prefer, List.filter_map]
    simp only [Function.comp_def, h.replaces]
  simp only [Search.syncCandidates, hpreferred]
  cases s.policy.prefer s.pool (available.filter (s.replaces t i)) with
  | nil => rfl
  | cons top rest =>
    have horder : (f top :: rest.map f).filter (fun c => !(s'.get c).evr.same (s.get i).evr) =
        ((top :: rest).filter fun c => !(s.get c).evr.same (s.get i).evr).map f := by
      rw [← List.map_cons, List.filter_map]
      simp only [Function.comp_def, h.evr]
    simp only [List.map_cons, h.evr, horder]
    split
    · rfl
    · split
      · exact List.map_take.symm
      · rfl

theorem downgradeCandidates (available : List PackageId) (t : Trial) (i : PackageId) :
    s'.downgradeCandidates (available.map f) (t.rename f) (f i) =
      (s.downgradeCandidates available t i).map f := by
  rw [Search.downgradeCandidates, Search.downgradeCandidates, h.policy, ← h.pool.prefer,
    List.filter_map]
  simp only [Function.comp_def, h.replaces, h.evr]

theorem move (r : Rules) (hjob : job.Mirrors f job') (t : Trial)
    {candidates candidates' : Trial → PackageId → List PackageId}
    (hcandidates : ∀ t i, candidates' (t.rename f) (f i) = (candidates t i).map f) (left : Nat) :
    (s.move r job t candidates left).Mirrors f (s'.move r job' (t.rename f) candidates' left) := by
  simp only [Search.move, h.movable hjob, List.isEmpty_map, bne, hjob.target.eq_all]
  split
  · exact .fail (.notApplicable .onlyAvailable) left
  · exact forEach hcandidates (h.replaceOrKeep r) (s.movable job t) t left

theorem downgrade (r : Rules) (hjob : job.Mirrors f job') (t : Trial) (left : Nat) :
    (s.downgrade r job t left).Mirrors f (s'.downgrade r job' (t.rename f) left) := by
  have hcandidates := h.downgradeCandidates (s.movePool job)
  simp only [Search.downgrade, h.movable hjob, h.movePool hjob, List.isEmpty_map, bne,
    hjob.target.eq_all, List.all_map, Function.comp_def, hcandidates]
  split
  · exact .fail (.notApplicable .onlyAvailable) left
  · split
    · exact .fail (.notApplicable .lowestInstalled) left
    · apply forEach hcandidates
      intro t _ ids left
      exact h.chooseFirst r none t ids none left

theorem changeReason (hjob : job.Mirrors f job') (t : Trial) (left : Nat) :
    (s.changeReason job t left).Mirrors f (s'.changeReason job' (t.rename f) left) := by
  have htargets : ((s.candidates job).map f).filter (t.rename f).present.contains =
      ((s.candidates job).filter t.present.contains).map f := by
    simp only [List.filter_map, Function.comp_def, Trial.rename_present, IdSet.contains_rename]
  simp only [Search.changeReason, h.candidates hjob, htargets, List.isEmpty_map]
  split
  · exact .fail (.notApplicable .noneInstalledToMark) left
  · have hreasons : ∀ (reason : Reason) (ids : List PackageId),
        (ids.map f).foldl (fun all id => all.insert id reason) (t.reasons.rename f) =
        (ids.foldl (fun all id => all.insert id reason) t.reasons).rename f := by
      intro reason ids
      rw [List.foldl_map]
      exact List.foldl_hom (Reasons.rename f) fun rs id => Reasons.rename_insert id reason rs
    refine ⟨congrArg Except.ok ?_, rfl⟩
    simp only [Trial.rename, hjob.reason_eq, hreasons]

theorem carryOut (r : Rules) (hjob : job.Mirrors f job') (t : Trial) (left : Nat) :
    (s.carryOut r job t left).Mirrors f (s'.carryOut r job' (t.rename f) left) := by
  rw [Search.carryOut, Search.carryOut, hjob.kind_eq, h.movePool hjob]
  cases job.kind with
  | install => exact h.install r hjob t left
  | erase => exact h.erase r hjob t left
  | upgrade | upgradeAll => exact h.move r hjob t (h.upgradeCandidates r (s.movePool job)) left
  | distroSync | distroSyncAll => exact h.move r hjob t (h.syncCandidates r (s.movePool job)) left
  | downgrade => exact h.downgrade r hjob t left
  | reasonChange => exact h.changeReason hjob t left
  | guard => exact .done t left

end Search.Mirrors

end Depsolve
