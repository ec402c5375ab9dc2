import Depsolve.Proofs.Solver.Soundness
import Depsolve.Solver.CarryOut
/-!
# Who is a candidate

Whatever a job is about, it brings in nothing that an exclude hides, and what it
tries in place of an installed package can take that place.
-/
namespace Depsolve

/-- Whether jobs of a kind put a new build in the place of an old one. -/
def JobKind.accepts (kind : JobKind) (new old : Evr) : Bool :=
  match kind with
  | .upgrade | .upgradeAll => new.newer old
  | .distroSync | .distroSyncAll => !new.same old
  | .downgrade => new.older old
  | .install | .erase | .reasonChange | .guard => false

namespace Search

variable {s : Search} {r : Rules} {job : Job} {t : Trial} {available : List PackageId}
  {old id : PackageId}

theorem mem_considered_of_mem_candidates (h : id ∈ s.candidates job) :
    id ∈ s.pool.considered := by
  rw [candidates] at h
  split at h
  · exact (List.mem_filter.mp h).2
  · exact (List.mem_filter.mp h).2
  · exact s.pool.installed_considered id (mem_initial.mp (IdSet.mem_toList.mp h))

theorem mem_movePool (h : id ∈ s.movePool job) :
    id ∈ s.pool.considered ∧ id ∉ s.pool.installed ∧
      (job.target ≠ .all → id ∈ s.candidates job) := by
  obtain ⟨hmem, hinstalled⟩ := List.mem_filter.mp h
  have hflag : (s.get id).installed = false := by simpa using hinstalled
  have havailable : id ∉ s.pool.installed := Universe.notMem_installed hflag
  split at hmem
  · rename_i hall
    exact ⟨PackageSet.mem_toList.mp hmem, havailable, fun htarget => absurd hall htarget⟩
  · exact ⟨mem_considered_of_mem_candidates hmem, havailable, fun _ => hmem⟩

theorem mem_obsoleters (h : id ∈ s.obsoleters) :
    id ∈ s.pool.considered ∧ id ∉ s.pool.installed := by
  rw [s.obsoleters_eq, List.mem_filter, PackageSet.mem_toList] at h
  simp only [Bool.and_eq_true, Bool.not_eq_true'] at h
  exact ⟨h.1, Universe.notMem_installed h.2.1⟩

theorem mem_upgradeCandidates (h : id ∈ s.upgradeCandidates r available t old) :
    id ∈ available ∧ s.replaces t old id = true ∧ (s.get id).evr.newer (s.get old).evr = true ∨
      id ∈ s.obsoleters ∧ id ∉ t.forbidden ∧
        (s.get id).obsoletesPackage (s.get old) = true := by
  let newer := available.filter fun c =>
    s.replaces t old c && (s.get c).evr.newer (s.get old).evr
  let found := if newer.isEmpty = true then s.obsoleters.filter fun c =>
    !t.forbidden.contains c && (s.get c).obsoletesPackage (s.get old) else newer
  have hfound : id ∈ found := by
    simp only [upgradeCandidates] at h
    split at h
    · exact Policy.mem_preferNamed.mp (List.mem_of_mem_take h)
    · exact Policy.mem_preferNamed.mp h
  simp only [found] at hfound
  split at hfound
  · simp only [List.mem_filter, Bool.and_eq_true, Bool.not_eq_true', Bool.eq_false_iff] at hfound
    exact .inr hfound
  · simp only [newer, List.mem_filter, Bool.and_eq_true] at hfound
    exact .inl hfound

theorem mem_syncCandidates (h : id ∈ s.syncCandidates r available t old) :
    id ∈ available ∧ s.replaces t old id = true ∧
      (s.get id).evr.same (s.get old).evr = false := by
  let preferred := s.policy.prefer s.pool (available.filter (s.replaces t old))
  have hfound : id ∈ preferred.filter fun c => !(s.get c).evr.same (s.get old).evr := by
    simp only [syncCandidates] at h
    split at h
    · cases h
    · split at h
      · cases h
      · split at h
        · exact List.mem_of_mem_take h
        · exact h
  simp only [preferred, List.mem_filter, Policy.mem_prefer, Bool.not_eq_true', and_assoc] at hfound
  exact hfound

theorem mem_downgradeCandidates :
    id ∈ s.downgradeCandidates available t old ↔ id ∈ available ∧
      s.replaces t old id = true ∧ (s.get id).evr.older (s.get old).evr = true := by
  rw [downgradeCandidates, Policy.mem_prefer, List.mem_filter, Bool.and_eq_true]

variable (s r job) in
/-- The packages that a job tries in place of an installed one. -/
def successors (t : Trial) (old : PackageId) : List PackageId :=
  match job.kind with
  | .upgrade | .upgradeAll => s.upgradeCandidates r (s.movePool job) t old
  | .distroSync | .distroSyncAll => s.syncCandidates r (s.movePool job) t old
  | .downgrade => s.downgradeCandidates (s.movePool job) t old
  | .install | .erase | .reasonChange | .guard => []

theorem successors_of_upgrade (hkind : job.kind = .upgrade ∨ job.kind = .upgradeAll) :
    s.successors r job = s.upgradeCandidates r (s.movePool job) := by
  funext t old
  rcases hkind with hkind | hkind <;> simp only [successors, hkind]

theorem successors_of_sync (hkind : job.kind = .distroSync ∨ job.kind = .distroSyncAll) :
    s.successors r job = s.syncCandidates r (s.movePool job) := by
  funext t old
  rcases hkind with hkind | hkind <;> simp only [successors, hkind]

theorem successors_of_downgrade (hkind : job.kind = .downgrade) :
    s.successors r job = s.downgradeCandidates (s.movePool job) := by
  funext t old
  simp only [successors, hkind]

theorem mem_successors (h : id ∈ s.successors r job t old) :
    (id ∈ s.movePool job ∧ s.replaces t old id = true ∧
      job.kind.accepts (s.get id).evr (s.get old).evr = true) ∨
    (job.kind = .upgrade ∨ job.kind = .upgradeAll) ∧ id ∈ s.obsoleters ∧
      (s.get id).obsoletesPackage (s.get old) = true := by
  cases hkind : job.kind <;> simp only [successors, hkind, List.not_mem_nil] at h
  case upgrade | upgradeAll =>
    exact (mem_upgradeCandidates h).imp_right fun hobsoleter =>
      ⟨by decide, hobsoleter.1, hobsoleter.2.2⟩
  case distroSync | distroSyncAll =>
    obtain ⟨hpool, hreplaces, hother⟩ := mem_syncCandidates h
    exact .inl ⟨hpool, hreplaces, by rw [JobKind.accepts, hother]; rfl⟩
  case downgrade => exact .inl (mem_downgradeCandidates.mp h)

theorem mem_considered_of_mem_successors (h : id ∈ s.successors r job t old) :
    id ∈ s.pool.considered := by
  rcases mem_successors h with ⟨hpool, -⟩ | ⟨-, hobsoleter, -⟩
  · exact (mem_movePool hpool).1
  · exact (mem_obsoleters hobsoleter).1

variable (s job) in
/-- A job can put a package in the place of an installed one: an available build that it accepts,
or for an upgrade an available package that obsoletes the installed one. -/
inductive Supplants (new : PackageId) : Prop
  | build {old : PackageId} (hnew : new ∈ s.movePool job) (hold : old ∈ s.pool.installed)
      (hfamily : s.sameFamily new old = true)
      (haccepts : job.kind.accepts (s.get new).evr (s.get old).evr = true)
  | obsoleter {old : PackageId} (hkind : job.kind = .upgrade ∨ job.kind = .upgradeAll)
      (hnew : new ∈ s.obsoleters) (hold : old ∈ s.pool.installed)
      (hobsoletes : (s.get new).obsoletesPackage (s.get old) = true)

theorem supplants_of_mem_successors (hold : old ∈ s.initial)
    (h : id ∈ s.successors r job t old) : s.Supplants job id := by
  have hinstalled := mem_initial.mp hold
  rcases mem_successors h with ⟨hpool, hreplaces, haccepts⟩ | ⟨hkind, hobsoleter, hobsoletes⟩
  · exact .build hpool hinstalled (Bool.and_eq_true_iff.mp hreplaces).2 haccepts
  · exact .obsoleter hkind hobsoleter hinstalled hobsoletes

def pin (reason : Option Reason) (t : Trial) (id : PackageId) : Trial := {
  t with
  pinned := t.pinned.insert id
  reasons := match reason with | some reason => t.reasons.insert id reason | none => t.reasons }

theorem choose_eq (reason : Option Reason) (left : Nat) : s.choose r reason t id left =
    match s.add (pin reason t id) id with
    | .error e => .fail e left
    | .ok t =>
      match s.settle r t left with
      | .settled t left => .done t left
      | .stuck e left => .fail e left
      | .overBudget => .fail .stepLimit 0 := rfl

variable (s) in
def installOrder (r : Rules) (job : Job) (t : Trial) : List PackageId :=
  let free := (s.candidates job).filter fun id => !t.forbidden.contains id
  let choices := if r.best then s.newestOnly free else free
  match job.target with
  | .dependency d => s.policy.preferNamed s.pool d.name choices
  | _ => s.policy.prefer s.pool choices

theorem mem_installOrder (h : id ∈ s.installOrder r job t) :
    id ∈ s.candidates job ∧ id ∉ t.forbidden := by
  let free := (s.candidates job).filter fun id => !t.forbidden.contains id
  have hchoices : id ∈ if r.best then s.newestOnly free else free := by
    rw [installOrder] at h
    split at h
    · exact Policy.mem_preferNamed.mp h
    · exact Policy.mem_prefer.mp h
  have hfree : id ∈ free := by
    split at hchoices
    · exact (List.mem_filter.mp hchoices).1
    · exact hchoices
  have hmem := List.mem_filter.mp hfree
  exact ⟨hmem.1, by simpa [← IdSet.contains_iff_mem] using hmem.2⟩

theorem install_eq (left : Nat) : s.install r job t left =
    match (s.candidates job).find? t.present.contains with
    | some id => .done (pin none t id) left
    | none =>
      if (s.installOrder r job t).isEmpty then .fail (.notApplicable .everyMatchRemoved) left
      else s.chooseFirst r (some .user) t (s.installOrder r job t) none left := rfl

end Search

end Depsolve
