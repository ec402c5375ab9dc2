import Depsolve.Association
import Depsolve.Package
/-!
# Decisions

What a resolution decided, before it is laid out as a transaction.
-/
namespace Depsolve

/-- Reasons by identifier, each identifier once and in ascending order. -/
structure Reasons where
  entries : List (PackageId × Reason)
  ascending : entries.Pairwise fun a b => a.1 < b.1
deriving DecidableEq

namespace Reasons

def empty : Reasons := ⟨[], .nil⟩

instance : EmptyCollection Reasons := ⟨empty⟩
instance : CoeOut Reasons (List (PackageId × Reason)) := ⟨entries⟩

/-- Write a reason into an ascending list, over an earlier one of the same package. -/
def put (id : PackageId) (reason : Reason) :
    List (PackageId × Reason) → List (PackageId × Reason)
  | [] => [(id, reason)]
  | (k, r) :: rest =>
    if id < k then (id, reason) :: (k, r) :: rest
    else if id = k then (id, reason) :: rest
    else (k, r) :: put id reason rest

theorem mem_put {id : PackageId} {reason : Reason} {entries : List (PackageId × Reason)}
    {e : PackageId × Reason} (h : e ∈ put id reason entries) : e = (id, reason) ∨ e ∈ entries := by
  induction entries with
  | nil => simpa [put] using h
  | cons p rest ih =>
    simp only [put] at h
    split at h
    · simpa using h
    · split at h
      · rcases List.mem_cons.mp h with h | h
        · exact .inl h
        · exact .inr (List.mem_cons_of_mem _ h)
      · rcases List.mem_cons.mp h with h | h
        · exact .inr (h ▸ List.mem_cons_self)
        · exact (ih h).imp_right (List.mem_cons_of_mem _)

theorem put_ascending {id : PackageId} {reason : Reason} {entries : List (PackageId × Reason)}
    (h : entries.Pairwise fun a b => a.1 < b.1) :
    (put id reason entries).Pairwise fun a b => a.1 < b.1 := by
  induction entries with
  | nil => exact List.pairwise_singleton ..
  | cons p rest ih =>
    have htail := List.pairwise_cons.mp h
    simp only [put]
    split
    · rename_i hlt
      refine List.pairwise_cons.mpr ⟨fun e he => ?_, h⟩
      rcases List.mem_cons.mp he with rfl | he
      · exact hlt
      · exact Nat.lt_trans hlt (htail.1 e he)
    · split
      · rename_i heq
        exact List.pairwise_cons.mpr ⟨fun e he => heq ▸ htail.1 e he, htail.2⟩
      · rename_i hlt heq
        refine List.pairwise_cons.mpr ⟨fun e he => ?_, ih htail.2⟩
        rcases mem_put he with rfl | he
        · exact Nat.lt_of_le_of_ne (Nat.le_of_not_lt hlt) (Ne.symm heq)
        · exact htail.1 e he

def insert (id : PackageId) (reason : Reason) (rs : Reasons) : Reasons :=
  ⟨put id reason rs.entries, put_ascending rs.ascending⟩

def get? (rs : Reasons) (id : PackageId) : Option Reason := rs.entries.lookup id

def ofList (pairs : List (PackageId × Reason)) : Reasons :=
  pairs.foldl (fun done p => insert p.1 p.2 done) ∅

theorem lookup_put {id k : PackageId} {reason : Reason} {entries : List (PackageId × Reason)} :
    (put id reason entries).lookup k = if k = id then some reason else entries.lookup k := by
  induction entries with
  | nil => exact Association.lookup_cons_ite
  | cons p rest ih =>
    simp only [put]
    split
    · exact Association.lookup_cons_ite
    · split
      · rename_i heq
        rw [Association.lookup_cons_ite, Association.lookup_cons_ite, heq]
        split <;> rfl
      · rename_i hne
        rw [Association.lookup_cons_ite, Association.lookup_cons_ite, ih]
        split
        · rename_i heq
          rw [if_neg fun hid => hne (hid.symm.trans heq)]
        · rfl

@[simp] theorem get?_insert {rs : Reasons} {id k : PackageId} {reason : Reason} :
    (rs.insert id reason).get? k = if k = id then some reason else rs.get? k :=
  lookup_put

theorem get?_foldl_insert {pairs : List (PackageId × Reason)} {rs : Reasons} {k : PackageId}
    {reason : Reason} (h : (k, reason) ∈ pairs ∨ rs.get? k = some reason)
    (hunique : ∀ r, (k, r) ∈ pairs → r = reason) :
    (pairs.foldl (fun done p => insert p.1 p.2 done) rs).get? k = some reason := by
  induction pairs generalizing rs with
  | nil => exact h.resolve_left (List.not_mem_nil)
  | cons p rest ih =>
    apply ih ?_ fun r hr => hunique r (List.mem_cons_of_mem _ hr)
    rw [get?_insert]
    by_cases heq : k = p.1
    · right
      rw [if_pos heq, hunique p.2 (by simp [heq])]
    · rw [if_neg heq]
      apply h.imp_left
      intro hmem
      rcases List.mem_cons.mp hmem with hhead | hrest
      · exact absurd (congrArg Prod.fst hhead) heq
      · exact hrest

end Reasons

structure Decisions where
  /-- Packages to put on the system. -/
  install : List PackageId := []
  /-- Installed packages to take off the system. -/
  erase : List PackageId := []
  /-- Pairs of a new package and an old one that it obsoletes. -/
  obsoletes : List (PackageId × PackageId) := []
  /-- Pairs of a package and one that needs it first. -/
  order : List (PackageId × PackageId) := []
  reasons : Reasons := ∅
deriving DecidableEq

def Decisions.isEmpty (d : Decisions) : Bool :=
  d.install.isEmpty && d.erase.isEmpty && d.reasons.entries.isEmpty

def comparePairs (a b : PackageId × PackageId) : Ordering :=
  (compare a.1 b.1).then (compare a.2 b.2)

end Depsolve
