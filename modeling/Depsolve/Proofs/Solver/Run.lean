import Depsolve.Proofs.Solver.Candidates
import Depsolve.Proofs.Solver.Mending
import Depsolve.Solver.Solve
/-!
# What a run does to the system

A run is a sequence of moves on one trial. A move is all that one candidate or
one erase brings about, so what every move preserves holds of every solution.
-/
namespace Depsolve

open Relation

def Trial.without (t : Trial) (ids : List PackageId) : Trial :=
  { t with
    present := ids.foldl IdSet.erase t.present
    forbidden := ids.foldl IdSet.insert t.forbidden }

namespace Search

variable {s : Search} {r : Rules} {job : Job} {t t' t₀ : Trial}

variable (s r) in
/-- A candidate is pinned and brought in, and what that breaks is mended. -/
def Chosen (reason : Option Reason) (id : PackageId) (t t' : Trial) : Prop :=
  ∃ t₁, s.add { t with
      pinned := t.pinned.insert id
      reasons := match reason with
        | some reason => t.reasons.insert id reason
        | none => t.reasons } id = .ok t₁ ∧ s.Mended r t₁ t'

variable (s job) in
def targets (t : Trial) : List PackageId :=
  (s.candidates job).filter fun id => s.initial.contains id && t.present.contains id

theorem mem_targets {id : PackageId} :
    id ∈ s.targets job t ↔ id ∈ s.candidates job ∧ id ∈ s.initial ∧ id ∈ t.present := by
  simp only [targets, List.mem_filter, Bool.and_eq_true, IdSet.contains_iff_mem]

variable (s r job) in
inductive Move : Trial → Trial → Prop
  | pin {t : Trial} {id : PackageId} (hkind : job.kind = .install) (hid : id ∈ s.candidates job)
      (hpresent : id ∈ t.present) : Move t { t with pinned := t.pinned.insert id }
  | install {t t' : Trial} {id : PackageId} (hkind : job.kind = .install)
      (hid : id ∈ s.candidates job) (habsent : ∀ c ∈ s.candidates job, c ∉ t.present)
      (hfree : id ∉ t.forbidden) (h : s.Chosen r (some .user) id t t') : Move t t'
  | replace {t t' : Trial} {old id : PackageId} (hold : old ∈ s.initial)
      (hpresent : old ∈ t.present) (hid : id ∈ s.successors r job t old)
      (h : s.Chosen r none id t t') : Move t t'
  | erase {t t' : Trial} (hkind : job.kind = .erase)
      (hpinned : ∀ id ∈ s.targets job t, id ∉ t.pinned)
      (h : s.Mended { r with eraseDependents := true } (t.without (s.targets job t)) t') : Move t t'
  | clean {t : Trial} {id : PackageId} (hkind : job.kind = .erase) (hclean : r.cleanDeps = true)
      (hunneeded : s.isUnneeded t id = true) : Move t { t with present := t.present.erase id }
  | mark {t : Trial} (hkind : job.kind = .reasonChange) :
      Move t { t with
        reasons := ((s.candidates job).filter t.present.contains).foldl
          (fun all id => all.insert id (job.reason.getD .unknown)) t.reasons }

theorem choose_eq_ok {reason : Option Reason} {id : PackageId} {left : Nat}
    (h : (s.choose r reason t id left).result = .ok t') : s.Chosen r reason id t t' := by
  simp only [choose] at h
  split at h
  · cases h
  · rename_i t₁ hadd
    split at h
    · rename_i t₂ left₂ hsettle
      cases h
      exact ⟨t₁, hadd, settle_eq_settled hsettle⟩
    · cases h
    · cases h

theorem chooseFirst_eq_ok {reason : Option Reason} {ids : List PackageId} {first : Option Failure}
    {left : Nat} (h : (s.chooseFirst r reason t ids first left).result = .ok t') :
    ∃ id ∈ ids, s.Chosen r reason id t t' := by
  induction ids generalizing first left with
  | nil => cases h
  | cons id ids ih =>
    rw [chooseFirst] at h
    split at h
    · rename_i t₁ hchoose
      cases h
      exact ⟨id, List.mem_cons_self, choose_eq_ok hchoose⟩
    · cases h
    · obtain ⟨c, hc, hchosen⟩ := ih h
      exact ⟨c, List.mem_cons_of_mem _ hc, hchosen⟩

theorem install_eq_ok {left : Nat} (hkind : job.kind = .install)
    (h : (s.install r job t left).result = .ok t') : s.Move r job t t' := by
  rw [install_eq] at h
  split at h
  · rename_i id hfind
    cases h
    exact .pin hkind (List.mem_of_find?_eq_some hfind) (List.find?_some hfind)
  · rename_i hnone
    have habsent : ∀ c ∈ s.candidates job, c ∉ t.present := List.find?_eq_none.mp hnone
    split at h
    · cases h
    · obtain ⟨id, hid, hchosen⟩ := chooseFirst_eq_ok h
      obtain ⟨hcandidate, hfree⟩ := mem_installOrder hid
      exact .install hkind hcandidate habsent hfree hchosen

theorem replaceOrKeep_eq_ok {old : PackageId} {ids : List PackageId} {left : Nat}
    (h : (s.replaceOrKeep r t old ids left).result = .ok t') :
    t' = t ∨ ∃ id ∈ ids, s.Chosen r none id t t' := by
  rw [replaceOrKeep] at h
  split at h
  · exact .inr (chooseFirst_eq_ok h)
  · exact .inr (chooseFirst_eq_ok h)
  · split at h
    · exact .inr (chooseFirst_eq_ok h)
    · cases h
      exact .inl rfl

theorem andThen_eq_ok {a : Attempt} {next : Trial → Nat → Attempt}
    (h : (a.andThen next).result = .ok t') :
    ∃ t, a.result = .ok t ∧ (next t a.left).result = .ok t' := by
  rw [Attempt.andThen] at h
  split at h
  · cases h
  · rename_i t₁ ha
    exact ⟨t₁, ha, h⟩

theorem mem_of_visited {id : PackageId} {order : List PackageId}
    (h : ¬(!t.present.contains id || order.isEmpty) = true) : id ∈ t.present := by
  simp only [Bool.or_eq_true, Bool.not_eq_true', not_or, Bool.not_eq_false] at h
  exact h.1

theorem forEach_eq_ok {R : Trial → Trial → Prop} {candidates : Trial → PackageId → List PackageId}
    {act : Trial → PackageId → List PackageId → Nat → Attempt} {ids : List PackageId} {left : Nat}
    (hact : ∀ id ∈ ids, ∀ t t' left, id ∈ t.present →
      (act t id (candidates t id) left).result = .ok t' → ReflTransGen R t t')
    (h : (forEach candidates act ids t left).result = .ok t') : ReflTransGen R t t' := by
  induction ids generalizing t left with
  | nil =>
    cases h
    exact .refl
  | cons id ids ih =>
    have hrest : ∀ x ∈ ids, ∀ t t' left, x ∈ t.present →
        (act t x (candidates t x) left).result = .ok t' → ReflTransGen R t t' :=
      fun x hx => hact x (List.mem_cons_of_mem _ hx)
    rw [forEach] at h
    split at h
    · exact ih hrest h
    · rename_i hvisit
      have hpresent : id ∈ t.present := mem_of_visited hvisit
      obtain ⟨t₁, hfirst, hnext⟩ := andThen_eq_ok h
      exact (hact id List.mem_cons_self t t₁ left hpresent hfirst).trans (ih hrest hnext)

/-- The first package that is present and has candidates is visited in the trial as it is. -/
theorem forEach_visits {R : Trial → Trial → Prop}
    {candidates : Trial → PackageId → List PackageId}
    {act : Trial → PackageId → List PackageId → Nat → Attempt} {ids : List PackageId} {left : Nat}
    (hact : ∀ id ∈ ids, ∀ t t' left, id ∈ t.present →
      (act t id (candidates t id) left).result = .ok t' → ReflTransGen R t t')
    (hsome : ∃ id ∈ ids, id ∈ t.present ∧ (candidates t id).isEmpty = false)
    (h : (forEach candidates act ids t left).result = .ok t') :
    ∃ id ∈ ids, ∃ t₁, id ∈ t.present ∧
      (act t id (candidates t id) left).result = .ok t₁ ∧ ReflTransGen R t₁ t' := by
  induction ids with
  | nil => simp at hsome
  | cons id ids ih =>
    have hrest : ∀ x ∈ ids, ∀ t t' left, x ∈ t.present →
        (act t x (candidates t x) left).result = .ok t' → ReflTransGen R t t' :=
      fun x hx => hact x (List.mem_cons_of_mem _ hx)
    rw [forEach] at h
    split at h
    · rename_i hskip
      have hlater : ∃ x ∈ ids, x ∈ t.present ∧ (candidates t x).isEmpty = false := by
        obtain ⟨x, hx, hpresent, hcandidates⟩ := hsome
        rcases List.mem_cons.mp hx with rfl | hx
        · have hvisit : t.present.contains x = true := hpresent
          simp [hvisit, hcandidates] at hskip
        · exact ⟨x, hx, hpresent, hcandidates⟩
      obtain ⟨x, hx, hvisit⟩ := ih hrest hlater h
      exact ⟨x, List.mem_cons_of_mem _ hx, hvisit⟩
    · rename_i hvisit
      have hpresent : id ∈ t.present := mem_of_visited hvisit
      obtain ⟨t₁, hfirst, hnext⟩ := andThen_eq_ok h
      exact ⟨id, List.mem_cons_self, t₁, hpresent, hfirst, forEach_eq_ok hrest hnext⟩

theorem mem_of_mem_movable {id : PackageId} (h : id ∈ s.movable job t) :
    id ∈ t.present ∧ id ∈ s.initial := by
  have hkept : id ∈ (t.present.inter s.initial).toList := by
    rw [movable] at h
    split at h
    · exact h
    · exact (List.mem_filter.mp h).1
  exact IdSet.mem_inter.mp (IdSet.mem_toList.mp hkept)

theorem move_eq_ok {left : Nat}
    (h : (s.move r job t (s.successors r job) left).result = .ok t') :
    ReflTransGen (s.Move r job) t t' := by
  rw [move] at h
  split at h
  · cases h
  · refine forEach_eq_ok (fun old hold t₁ t₂ left₁ hpresent hact => ?_) h
    rcases replaceOrKeep_eq_ok hact with rfl | ⟨id, hid, hchosen⟩
    · exact .refl
    · exact .single (.replace (mem_of_mem_movable hold).2 hpresent hid hchosen)

theorem chooseFirst_move {old : PackageId} {left : Nat} (hold : old ∈ s.movable job t₀)
    (hpresent : old ∈ t.present)
    (h : (s.chooseFirst r none t (s.successors r job t old) none left).result = .ok t') :
    ReflTransGen (s.Move r job) t t' := by
  obtain ⟨id, hid, hchosen⟩ := chooseFirst_eq_ok h
  exact .single (.replace (mem_of_mem_movable hold).2 hpresent hid hchosen)

theorem downgrade_spec {left : Nat} (hkind : job.kind = .downgrade)
    (h : (s.downgrade r job t left).result = .ok t') :
    (∃ old ∈ s.movable job t, (s.successors r job t old).isEmpty = false) ∧
      (forEach (s.successors r job)
        (fun t _ order left => s.chooseFirst r none t order none left)
        (s.movable job t) t left).result = .ok t' := by
  rw [downgrade, ← successors_of_downgrade (r := r) hkind] at h
  split at h
  · cases h
  · split at h
    · cases h
    · rename_i hnone
      exact ⟨by simpa using hnone, h⟩

theorem downgrade_eq_ok {left : Nat} (hkind : job.kind = .downgrade)
    (h : (s.downgrade r job t left).result = .ok t') : ReflTransGen (s.Move r job) t t' := by
  obtain ⟨-, hvisits⟩ := downgrade_spec hkind h
  exact forEach_eq_ok (fun old hold t₁ t₂ left₁ => chooseFirst_move hold) hvisits

theorem takeOff_eq_ok {ids : List PackageId} (h : takeOff t ids = .ok t') :
    (∀ id ∈ ids, id ∉ t.pinned) ∧ t' = t.without ids := by
  induction ids generalizing t with
  | nil =>
    cases h
    exact ⟨by simp, rfl⟩
  | cons id ids ih =>
    rw [takeOff] at h
    split at h
    · cases h
    · rename_i hpinned
      have hrest := ih h
      exact ⟨List.forall_mem_cons.mpr ⟨hpinned, hrest.1⟩, hrest.2⟩

theorem isUnneeded_iff {id : PackageId} :
    s.isUnneeded t id = true ↔ id ∈ t.present ∧ id ∈ s.initial ∧ id ∉ t.pinned ∧ id ∉ s.guarded ∧
      (((t.reasons.get? id).getD (s.get id).reason) = .dependency ∨
        ((t.reasons.get? id).getD (s.get id).reason) = .weakDependency) ∧
      ∀ p ∈ t.present, p ≠ id → ∀ d ∈ (s.get p).requires, id ∉ s.pool.whatProvides d := by
  have hneeded : (((t.present.erase id).toList.any fun other =>
      (s.links.requiresOf other).any fun need => need.2.contains id) = true) ↔
      ¬ ∀ p ∈ t.present, p ≠ id → ∀ d ∈ (s.get p).requires, id ∉ s.pool.whatProvides d := by
    rw [List.any_eq_true]
    simp only [mem_requiresOf, IdSet.mem_toList, IdSet.mem_erase]
    constructor
    · rintro ⟨p, ⟨hp, hne⟩, d, hd, hid⟩ hall
      exact hall p hp hne d hd hid
    · intro hnot
      simpa [and_assoc] using hnot
  simp only [isUnneeded, Bool.and_eq_true, Bool.or_eq_true, Bool.not_eq_true', beq_iff_eq,
    Bool.eq_false_iff, ne_eq, hneeded, IdSet.contains_iff_mem, Classical.not_not, and_assoc]

theorem cleanFrom_run (hkind : job.kind = .erase) (hclean : r.cleanDeps = true) (fuel : Nat)
    (t : Trial) (queue : List PackageId) :
    ReflTransGen (s.Move r job) t (s.cleanFrom fuel t queue).1 := by
  induction fuel generalizing t queue with
  | zero => exact .refl
  | succ fuel ih =>
    rw [cleanFrom]
    split
    · exact .refl
    · rename_i id rest hqueue
      have hhead := List.head?_dropWhile_not (fun id => !s.isUnneeded t id) queue
      rw [hqueue] at hhead
      have hunneeded : s.isUnneeded t id = true := by simpa using hhead
      exact .head (.clean hkind hclean hunneeded) (ih _ _)

/-- An erase that succeeds takes at least one package off, mends what that breaks, and perhaps
cleans up. -/
theorem erase_spec {left : Nat} (hkind : job.kind = .erase)
    (h : (s.erase r job t left).result = .ok t') :
    (∃ id, id ∈ s.targets job t) ∧ (∀ id ∈ s.targets job t, id ∉ t.pinned) ∧
      ∃ t₁, s.Mended { r with eraseDependents := true } (t.without (s.targets job t)) t₁ ∧
        ReflTransGen (s.Move r job) t₁ t' := by
  rw [erase] at h
  dsimp only at h
  split at h
  · cases h
  · rename_i hsome
    have htarget : ∃ id, id ∈ s.targets job t :=
      List.exists_mem_of_ne_nil _ fun hnil => hsome (List.isEmpty_iff.mpr hnil)
    split at h
    · cases h
    · rename_i bare htake
      obtain ⟨hpinned, rfl⟩ := takeOff_eq_ok htake
      split at h
      · cases h
      · cases h
      · rename_i settled left₁ hsettle
        refine ⟨htarget, hpinned, settled, settle_eq_settled hsettle, ?_⟩
        split at h
        · rename_i hclean
          cases h
          exact cleanFrom_run hkind hclean ..
        · cases h
          exact .refl

theorem erase_eq_ok {left : Nat} (hkind : job.kind = .erase)
    (h : (s.erase r job t left).result = .ok t') : ReflTransGen (s.Move r job) t t' := by
  obtain ⟨-, hpinned, t₁, hmended, hrest⟩ := erase_spec hkind h
  exact .head (.erase hkind hpinned hmended) hrest

theorem changeReason_eq_ok {left : Nat} (hkind : job.kind = .reasonChange)
    (h : (s.changeReason job t left).result = .ok t') : s.Move r job t t' := by
  rw [changeReason] at h
  dsimp only at h
  split at h
  · cases h
  · cases h
    exact .mark hkind

theorem carryOut_eq_ok {left : Nat} (h : (s.carryOut r job t left).result = .ok t') :
    ReflTransGen (s.Move r job) t t' := by
  have hmove : ∀ candidatesOf, s.successors r job = candidatesOf →
      (s.move r job t candidatesOf left).result = .ok t' → ReflTransGen (s.Move r job) t t' := by
    rintro _ rfl
    exact move_eq_ok
  -- the kind decides which function ran and what `successors` stands for
  cases hkind : job.kind <;> simp only [carryOut, hkind] at h
  case install => exact .single (install_eq_ok hkind h)
  case erase => exact erase_eq_ok hkind h
  case upgrade => exact hmove _ (successors_of_upgrade (.inl hkind)) h
  case upgradeAll => exact hmove _ (successors_of_upgrade (.inr hkind)) h
  case distroSync => exact hmove _ (successors_of_sync (.inl hkind)) h
  case distroSyncAll => exact hmove _ (successors_of_sync (.inr hkind)) h
  case downgrade => exact downgrade_eq_ok hkind h
  case reasonChange => exact .single (changeReason_eq_ok hkind h)
  case guard =>
    cases h
    exact .refl

end Search

end Depsolve
