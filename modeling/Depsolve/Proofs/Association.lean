import Depsolve.Association
import Mathlib.Data.List.Nodup
/-!
# Looking up what was written

Writing under a key decides what is found under this key and under no other. Pairs written one
after another leave each key once.
-/
namespace Depsolve.Association

variable {κ α : Type} [DecidableEq κ] {key other : κ} {value : α} {pairs : List (κ × α)}

theorem lookup_set (key : κ) (value : α) (pairs : List (κ × α)) :
    (set key value pairs).lookup other =
      if other = key then some value else pairs.lookup other := by
  induction pairs with
  | nil => exact lookup_cons_ite
  | cons p pairs ih =>
    obtain ⟨k, v⟩ := p
    rw [set]
    split
    · next heq =>
      rw [lookup_cons_ite, lookup_cons_ite, heq]
      split <;> rfl
    · next hne =>
      rw [lookup_cons_ite, lookup_cons_ite, ih]
      split
      · next heq => rw [if_neg fun hother => hne (heq.symm.trans hother)]
      · rfl

@[simp] theorem lookup_set_self (key : κ) (value : α) (pairs : List (κ × α)) :
    (set key value pairs).lookup key = some value := by
  rw [lookup_set, if_pos rfl]

theorem lookup_set_of_ne (h : other ≠ key) (value : α) (pairs : List (κ × α)) :
    (set key value pairs).lookup other = pairs.lookup other := by
  rw [lookup_set, if_neg h]

theorem keys_set (key : κ) (value : α) (pairs : List (κ × α)) :
    (set key value pairs).map Prod.fst =
      if key ∈ pairs.map Prod.fst then pairs.map Prod.fst else pairs.map Prod.fst ++ [key] := by
  induction pairs with
  | nil => rfl
  | cons p pairs ih =>
    obtain ⟨k, v⟩ := p
    rw [set]
    split
    · next heq => simp [heq]
    · next hne =>
      rw [List.map_cons, ih]
      split
      · next hmem => rw [List.map_cons, if_pos (List.mem_cons_of_mem _ hmem)]
      · next hmem =>
        rw [List.map_cons, if_neg (by simp [Ne.symm hne, hmem])]
        rfl

theorem nodup_keys_set (h : (pairs.map Prod.fst).Nodup) :
    ((set key value pairs).map Prod.fst).Nodup := by
  rw [keys_set]
  split
  · exact h
  · next hnew =>
    rw [← List.concat_eq_append]
    exact h.concat hnew

theorem set_of_notMem (h : key ∉ pairs.map Prod.fst) :
    set key value pairs = pairs ++ [(key, value)] := by
  induction pairs with
  | nil => rfl
  | cons p pairs ih =>
    obtain ⟨k, v⟩ := p
    rw [List.map_cons, List.mem_cons, not_or] at h
    rw [set, if_neg (Ne.symm h.1), ih h.2]
    rfl

theorem nodup_keys_ofList (pairs : List (κ × α)) : ((ofList pairs).map Prod.fst).Nodup := by
  suffices h : ∀ done : List (κ × α), (done.map Prod.fst).Nodup →
      ((pairs.foldl (fun done p => set p.1 p.2 done) done).map Prod.fst).Nodup from h [] (by simp)
  induction pairs with
  | nil => exact fun done hdone => hdone
  | cons p pairs ih => exact fun done hdone => ih _ (nodup_keys_set hdone)

theorem ofList_of_nodup (h : (pairs.map Prod.fst).Nodup) : ofList pairs = pairs := by
  suffices hfold : ∀ done : List (κ × α), ((done ++ pairs).map Prod.fst).Nodup →
      pairs.foldl (fun done p => set p.1 p.2 done) done = done ++ pairs from hfold [] h
  induction pairs with
  | nil => simp
  | cons p pairs ih =>
    intro done hdone
    have hnew : p.1 ∉ done.map Prod.fst := by
      rw [List.map_append, List.nodup_append] at hdone
      exact fun hp => hdone.2.2 p.1 hp p.1 (by simp) rfl
    have hrest : ((done ++ [p] ++ pairs).map Prod.fst).Nodup := by
      rwa [List.append_assoc, List.singleton_append]
    rw [List.foldl_cons, set_of_notMem hnew]
    exact (ih (by simp_all) (done ++ [p]) hrest).trans (by simp)

end Depsolve.Association
