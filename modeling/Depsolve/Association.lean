/-!
# Association lists

Pairs of keys and values in the order in which the keys were first written.
-/
namespace Depsolve.Association

variable {κ α : Type} [DecidableEq κ]

/-- Write a value under a key: a new key goes to the end, an old key keeps its place. -/
def set (key : κ) (value : α) : List (κ × α) → List (κ × α)
  | [] => [(key, value)]
  | (k, v) :: rest => if k = key then (key, value) :: rest else (k, v) :: set key value rest

/-- Write pairs one after another. -/
def ofList (pairs : List (κ × α)) : List (κ × α) :=
  pairs.foldl (fun done p => set p.1 p.2 done) []

theorem lookup_cons_ite {key other : κ} {value : α} {pairs : List (κ × α)} :
    ((key, value) :: pairs).lookup other =
      if other = key then some value else pairs.lookup other := by
  by_cases heq : other = key
  · rw [if_pos heq, heq, List.lookup_cons_self]
  · rw [if_neg heq, List.lookup_cons, beq_eq_false_iff_ne.mpr heq]

end Depsolve.Association
