import Depsolve.Plan.Materialize
import Depsolve.Proofs.Plan.Replay
import Mathlib.Data.List.Perm.Basic
/-!
# Who takes whose place

Every outgoing package is given to one of three: an incoming build of its family
that follows it, an incoming package that obsoletes it, or an erase of its own.
For each of the passes that give packages away, what is given and what is left
make up what was there.
-/
namespace Depsolve

namespace Operation

def marked? (op : Operation) : Option PackageId :=
  match op.kind with
  | .reasonChange => some op.package
  | .install | .upgrade | .downgrade | .reinstall | .erase | .obsolete => none

theorem incoming?_of_isInbound {op : Operation} (h : op.kind.isInbound = true) :
    op.incoming? = some op.package := by
  cases hk : op.kind <;> simp_all [OperationKind.isInbound, incoming?]

theorem incoming?_of_not_isInbound {op : Operation} (h : op.kind.isInbound = false) :
    op.incoming? = none := by
  cases hk : op.kind <;> simp_all [OperationKind.isInbound, incoming?]

theorem marked?_of_isInbound {op : Operation} (h : op.kind.isInbound = true) :
    op.marked? = none := by
  cases hk : op.kind <;> simp_all [OperationKind.isInbound, marked?]

theorem subjects_perm (op : Operation) :
    ([op.package] ++ op.replacedBuild?.toList).Perm
      (op.incoming?.toList ++ (op.outgoing?.toList ++ op.marked?.toList)) := by
  cases hk : op.kind <;> simp [incoming?, outgoing?, replacedBuild?, marked?, hk]

end Operation

namespace Plan

open scoped List

/-- The packages that operations are about, and the old builds that they replace. -/
def touched (ops : List Operation) : List PackageId :=
  ops.map Operation.package ++ ops.filterMap Operation.replacedBuild?

theorem touched_perm (ops : List Operation) :
    (touched ops).Perm (arriving ops ++ (leaving ops ++ ops.filterMap Operation.marked?)) := by
  simp only [touched, arriving, leaving, List.filterMap_eq_flatMap_toList, List.map_eq_flatMap]
  have hright := List.flatMap_append_perm ops (fun op => op.outgoing?.toList)
    (fun op => op.marked?.toList)
  have hall := List.flatMap_append_perm ops (fun op => op.incoming?.toList)
    (fun op => op.outgoing?.toList ++ op.marked?.toList)
  exact (List.flatMap_append_perm ops _ _).trans
    ((List.Perm.flatMap_left ops fun op _ => op.subjects_perm).trans
      (hall.symm.trans (hright.symm.append_left _)))

theorem inbound_eq_arriving (p : Plan) : p.inbound = arriving p.operations := by
  rw [inbound, arriving]
  induction p.operations with
  | nil => rfl
  | cons op ops ih =>
    by_cases h : op.kind.isInbound = true
    · simp [h, op.incoming?_of_isInbound h, ih]
    · have hno : op.kind.isInbound = false := Bool.not_eq_true _ ▸ h
      simp [hno, op.incoming?_of_not_isInbound hno, ih]

theorem flatMap_filter_perm {α : Type} (key : α → PackageId) {keys : List PackageId} {xs : List α}
    (hkeys : keys.Nodup) (hxs : ∀ x ∈ xs, key x ∈ keys) :
    (keys.flatMap fun k => xs.filter fun x => key x == k).Perm xs := by
  induction keys generalizing xs with
  | nil =>
    have hnil : xs = [] := List.eq_nil_iff_forall_not_mem.mpr fun x hx => by simpa using hxs x hx
    subst hnil
    exact .refl _
  | cons k keys ih =>
    have hk := List.nodup_cons.mp hkeys
    have hother : ∀ x ∈ xs.filter (fun x => !(key x == k)), key x ∈ keys := by
      intro x hx
      have hx' := List.mem_filter.mp hx
      exact (List.mem_cons.mp (hxs x hx'.1)).resolve_left (by simpa using hx'.2)
    have hsame : ∀ k' ∈ keys, (xs.filter fun x => key x == k') =
        (xs.filter fun x => !(key x == k)).filter fun x => key x == k' := by
      intro k' hk'
      rw [List.filter_filter]
      refine List.filter_congr fun x _ => ?_
      by_cases hx : key x = k'
      · have hne : k' ≠ k := fun h => hk.1 (h ▸ hk')
        simp [hx, hne]
      · simp [hx]
    have hrest : (keys.flatMap fun k' => xs.filter fun x => key x == k') =
        keys.flatMap fun k' => (xs.filter fun x => !(key x == k)).filter fun x => key x == k' :=
      List.flatMap_congr hsame
    rw [List.flatMap_cons, hrest]
    exact ((ih hk.2 hother).append_left _).trans (List.filter_append_perm _ xs)

variable (u : Universe)

theorem foldl_mem {f : Option PackageId → PackageId → Option PackageId}
    (hf : ∀ best id x, f best id = some x → best = some x ∨ id = x) {ids : List PackageId}
    {best : Option PackageId} {x : PackageId} (h : ids.foldl f best = some x) :
    best = some x ∨ x ∈ ids := by
  induction ids generalizing best with
  | nil => exact .inl h
  | cons id ids ih =>
    rcases ih h with hx | hx
    · rcases hf best id x hx with hbest | rfl
      · exact .inl hbest
      · exact .inr List.mem_cons_self
    · exact .inr (List.mem_cons_of_mem _ hx)

theorem newest?_mem {ids : List PackageId} {id : PackageId} (h : newest? u ids = some id) :
    id ∈ ids := by
  rw [newest?] at h
  refine (foldl_mem (fun best other x hx => ?_) h).resolve_left (by simp)
  split at hx
  · exact .inr (Option.some.inj hx)
  · split at hx
    · exact .inl hx
    · exact .inr (Option.some.inj hx)

theorem followed?_mem {outgoing : IdSet} {id old : PackageId}
    (h : followed? u outgoing id = some old) : old ∈ outgoing :=
  IdSet.mem_toList.mp (List.mem_filter.mp (newest?_mem u h)).1

theorem replacementKind_cases (new old : PackageId) :
    replacementKind u new old = .upgrade ∨ replacementKind u new old = .downgrade ∨
      replacementKind u new old = .reinstall := by
  unfold replacementKind
  split <;> simp

theorem replacementKind_isInbound (new old : PackageId) :
    (replacementKind u new old).isInbound = true := by
  rcases replacementKind_cases u new old with h | h | h <;> rw [h] <;> rfl

theorem replacement_outgoing? (new old : PackageId) (reason : Reason) :
    Operation.outgoing? ⟨replacementKind u new old, new, some old, reason⟩ = some old := by
  rcases replacementKind_cases u new old with h | h | h <;>
    simp [Operation.outgoing?, Operation.replacedBuild?, h]

variable (reasons : Reasons)

theorem classify_map_package (ids : List PackageId) (outgoing : IdSet) :
    (classify u reasons ids outgoing).1.map Operation.package = ids := by
  induction ids generalizing outgoing with
  | nil => rfl
  | cons id ids ih =>
    rw [classify]
    split
    · simp [ih]
    · simp [ih]

theorem classify_isInbound (ids : List PackageId) (outgoing : IdSet) :
    ∀ op ∈ (classify u reasons ids outgoing).1, op.kind.isInbound = true := by
  induction ids generalizing outgoing with
  | nil => simp [classify]
  | cons id ids ih =>
    rw [classify]
    split
    · rename_i old _
      intro op hop
      rcases List.mem_cons.mp hop with rfl | hop
      · exact replacementKind_isInbound u id old
      · exact ih _ op hop
    · intro op hop
      rcases List.mem_cons.mp hop with rfl | hop
      · rfl
      · exact ih _ op hop

theorem classify_namesReplaced (ids : List PackageId) (outgoing : IdSet) :
    ∀ op ∈ (classify u reasons ids outgoing).1, op.NamesReplaced := by
  induction ids generalizing outgoing with
  | nil => simp [classify]
  | cons id ids ih =>
    rw [classify]
    split
    · intro op hop
      rcases List.mem_cons.mp hop with rfl | hop
      · exact fun _ => rfl
      · exact ih _ op hop
    · intro op hop
      rcases List.mem_cons.mp hop with rfl | hop
      · simp [Operation.NamesReplaced]
      · exact ih _ op hop

/-- An outgoing package is followed by one incoming build or left. -/
theorem classify_leaving_perm (ids : List PackageId) (outgoing : IdSet) :
    (leaving (classify u reasons ids outgoing).1 ++
      (classify u reasons ids outgoing).2.toList).Perm outgoing.toList := by
  induction ids generalizing outgoing with
  | nil => exact .refl _
  | cons id ids ih =>
    rw [classify]
    split
    · rename_i old hold
      rw [leaving_cons, replacement_outgoing?]
      exact ((ih (outgoing.erase old)).cons old).trans
        (IdSet.toList_erase_perm (followed?_mem u hold))
    · exact ih outgoing

/-- The outgoing packages that no build follows, divided between incoming packages that obsolete
them and the others. -/
structure Divided (unfollowed news : IdSet) (o : Obsoletions) : Prop where
  perm : (o.pairs.map Prod.fst ++ o.left.toList).Perm unfollowed.toList
  new_mem : ∀ p ∈ o.pairs, p.2 ∈ news

variable {unfollowed news : IdSet}

theorem Divided.assign {o : Obsoletions} (h : Divided unfollowed news o)
    {old new : PackageId} (hold : old ∈ o.left) (hnew : new ∈ news) :
    Divided unfollowed news ⟨o.pairs ++ [(old, new)], o.left.erase old⟩ where
  perm := by
    rw [List.map_append, List.append_assoc]
    exact ((IdSet.toList_erase_perm hold).append_left _).trans h.perm
  new_mem := by
    intro p hp
    rcases List.mem_append.mp hp with hp | hp
    · exact h.new_mem p hp
    · exact List.mem_singleton.mp hp ▸ hnew

theorem recorded_divided (obsoletes : List (PackageId × PackageId)) :
    Divided unfollowed news (recorded news unfollowed obsoletes) := by
  have hfold : ∀ (obsoletes : List (PackageId × PackageId)) (o : Obsoletions),
      Divided unfollowed news o → Divided unfollowed news (obsoletes.foldl (fun o p =>
        if news.contains p.1 && o.left.contains p.2 then
          ⟨o.pairs ++ [(p.2, p.1)], o.left.erase p.2⟩
        else o) o) := by
    intro obsoletes
    induction obsoletes with
    | nil => exact fun _ h => h
    | cons p obsoletes ih =>
      intro o h
      rw [List.foldl_cons]
      refine ih _ ?_
      split
      · rename_i hp
        have hp' := Bool.and_eq_true_iff.mp hp
        exact h.assign hp'.2 hp'.1
      · exact h
  exact hfold obsoletes _ ⟨.refl _, by simp⟩

/-- Packages are looked at one after the other; those still to be looked at stay among those that
are left. -/
theorem Divided.foldl {f : Obsoletions → PackageId → Obsoletions}
    (hf : ∀ o old, Divided unfollowed news o → old ∈ o.left →
      Divided unfollowed news (f o old) ∧ ∀ x ∈ o.left, x ≠ old → x ∈ (f o old).left)
    {olds : List PackageId} {o : Obsoletions} (hnodup : olds.Nodup)
    (hleft : ∀ old ∈ olds, old ∈ o.left) (h : Divided unfollowed news o) :
    Divided unfollowed news (olds.foldl f o) := by
  induction olds generalizing o with
  | nil => exact h
  | cons old olds ih =>
    obtain ⟨hfirst, hrest⟩ := List.nodup_cons.mp hnodup
    obtain ⟨hnext, hkeeps⟩ := hf o old h (hleft old List.mem_cons_self)
    refine ih hrest (fun x hx => ?_) hnext
    have hne : x ≠ old := fun heq => hfirst (heq ▸ hx)
    exact hkeeps x (hleft x (List.mem_cons_of_mem _ hx)) hne

theorem detected_divided {o : Obsoletions} (h : Divided unfollowed news o) :
    Divided unfollowed news (detected u news.toList o) := by
  rw [detected]
  refine Divided.foldl (fun o old ho hold => ?_) (IdSet.toList_nodup _)
    (fun _ => IdSet.mem_toList.mp) h
  split
  · rename_i new hnew
    have hnewMem : new ∈ news := IdSet.mem_toList.mp (List.mem_of_find?_eq_some hnew)
    exact ⟨ho.assign hold hnewMem, fun x hx hne => IdSet.mem_erase.mpr ⟨hx, hne⟩⟩
  · exact ⟨ho, fun x hx _ => hx⟩

theorem arriving_eq_nil {ops : List Operation} (h : ∀ op ∈ ops, op.incoming? = none) :
    arriving ops = [] := List.filterMap_eq_nil_iff.mpr h

theorem arriving_of_isInbound {ops : List Operation} (h : ∀ op ∈ ops, op.kind.isInbound = true) :
    arriving ops = ops.map Operation.package := by
  rw [arriving, ← List.filterMap_eq_map]
  exact List.filterMap_congr fun op hop => op.incoming?_of_isInbound (h op hop)

theorem obsoleteOps_arriving (pairs : List (PackageId × PackageId)) (new : PackageId) :
    arriving (obsoleteOps u pairs new) = [] := by
  refine arriving_eq_nil fun op hop => ?_
  obtain ⟨old, -, rfl⟩ := List.mem_map.mp hop
  rfl

theorem obsoleteOps_leaving_perm (pairs : List (PackageId × PackageId)) (new : PackageId) :
    (leaving (obsoleteOps u pairs new)).Perm
      ((pairs.filter fun p => p.2 == new).map Prod.fst) := by
  have hleaving : leaving (obsoleteOps u pairs new) =
      sortCmp u.compareNames ((pairs.filter fun p => p.2 == new).map Prod.fst) := by
    rw [leaving, obsoleteOps, List.filterMap_map]
    exact List.filterMap_some
  rw [hleaving]
  exact sortBy_perm ..

/-- The operations on incoming packages, each behind those on the packages it obsoletes. -/
def arrivals (pairs : List (PackageId × PackageId)) (inbound : List Operation)
    (ids : List PackageId) : List Operation :=
  ids.flatMap fun id => obsoleteOps u pairs id ++ inbound.filter (·.package == id)

theorem filter_map_package {ops : List Operation} {id : PackageId}
    (hnodup : (ops.map Operation.package).Nodup) (hid : id ∈ ops.map Operation.package) :
    (ops.filter (·.package == id)).map Operation.package = [id] := by
  have hfilter : (ops.filter (·.package == id)).map Operation.package =
      (ops.map Operation.package).filter (· == id) := by
    rw [List.filter_map]
    rfl
  rw [hfilter, List.filter_beq, List.count_eq_one_of_mem hnodup hid, List.replicate_one]

theorem arrivals_arriving {pairs : List (PackageId × PackageId)} {inbound : List Operation}
    {ids : List PackageId} (hkind : ∀ op ∈ inbound, op.kind.isInbound = true)
    (hnodup : (inbound.map Operation.package).Nodup)
    (hids : ∀ id ∈ ids, id ∈ inbound.map Operation.package) :
    arriving (arrivals u pairs inbound ids) = ids := by
  have hone : ∀ id ∈ ids, arriving (obsoleteOps u pairs id ++
      inbound.filter (·.package == id)) = [id] := by
    intro id hid
    rw [arriving_append, obsoleteOps_arriving, List.nil_append,
      arriving_of_isInbound fun op hop => hkind op (List.mem_filter.mp hop).1,
      filter_map_package hnodup (hids id hid)]
  rw [arriving, arrivals, List.filterMap_flatMap]
  exact (List.flatMap_congr hone).trans (List.flatMap_singleton' ids)

theorem arrivals_leaving_perm {pairs : List (PackageId × PackageId)} {inbound : List Operation}
    {ids : List PackageId} (hids : ids.Nodup) (hpairs : ∀ p ∈ pairs, p.2 ∈ ids)
    (hinbound : ∀ op ∈ inbound, op.package ∈ ids) :
    (leaving (arrivals u pairs inbound ids)).Perm (pairs.map Prod.fst ++ leaving inbound) := by
  have hsplit : leaving (arrivals u pairs inbound ids) = ids.flatMap fun id =>
      leaving (obsoleteOps u pairs id) ++ leaving (inbound.filter (·.package == id)) := by
    rw [leaving, arrivals, List.filterMap_flatMap]
    exact List.flatMap_congr fun id _ => leaving_append ..
  have holds : (ids.flatMap fun id => leaving (obsoleteOps u pairs id)).Perm
      (pairs.map Prod.fst) := by
    refine (List.Perm.flatMap_left ids fun id _ => obsoleteOps_leaving_perm u pairs id).trans ?_
    rw [← List.map_flatMap]
    exact (flatMap_filter_perm Prod.snd hids hpairs).map _
  have hbuilds : (ids.flatMap fun id => leaving (inbound.filter (·.package == id))).Perm
      (leaving inbound) := by
    have hcollect : (ids.flatMap fun id => leaving (inbound.filter (·.package == id))) =
        leaving (ids.flatMap fun id => inbound.filter (·.package == id)) :=
      List.filterMap_flatMap.symm
    rw [hcollect]
    exact (flatMap_filter_perm Operation.package hids hinbound).filterMap _
  rw [hsplit]
  exact (List.flatMap_append_perm ids _ _).symm.trans (holds.append hbuilds)

end Plan

end Depsolve
