import Depsolve.Proofs.Query.Winners
import Depsolve.Proofs.Selector.Fallback
/-!
# Filters that go from query to query

A set is looked at where a query is asked to keep to it: one of another universe is refused.
The filter by the set is recorded, and a recorded filter is taken as it is wherever it is
handed next. So the sets of a query are of its own universe as long as no recorded filter by a
set goes to a query of another universe.
-/
namespace Depsolve

/-- The set that a filter keeps to. -/
def Filter.set? : Filter → Option PackageSet
  | .ids set => some set
  | _ => none

namespace Query

/-- Every set that the query filters by is of its own universe. -/
def KeepsOwnSets (q : Query) : Prop :=
  ∀ f ∈ q.filters, ∀ set, f.set? = some set → set.generation = q.pool.generation

/-- A filter that is handed to a query. The only filters by a set are recorded ones. -/
inductive Handed where
  | own (f : Filter) (plain : f.set? = none)
  /-- The filter at a place of an earlier query. -/
  | recorded (giver place : Nat)

/-- One use of the queries made so far, which are numbered as they are made. -/
inductive Call where
  | start (u : Universe) (origin : Start)
  | select (u : Universe) (s : Selector)
  | filter (taker : Nat) (f : Handed)
  | filterAny (taker : Nat) (fs : List Handed)
  | ids (taker : Nat) (set : PackageSet)

def Handed.get? (made : List Query) : Handed → Option Filter
  | .own f _ => some f
  | .recorded giver place => made[giver]?.bind fun q => q.filters[place]?

/-- The new query that a call makes, or its refusal. Nothing comes of a query or a filter that
does not exist. -/
def Call.answer? (made : List Query) : Call → Option (Except UniverseMismatch Query)
  | .start u origin => some (origin.query u)
  | .select u s => some (.ok (s.query u))
  | .filter taker f =>
    made[taker]?.bind fun q => (f.get? made).map fun f => .ok (q.filter f)
  | .filterAny taker fs =>
    made[taker]?.map fun q => .ok (q.filterAny (fs.filterMap (Handed.get? made)))
  | .ids taker set => made[taker]?.map fun q => q.ids set

/-- The queries after a call: one more, unless it was refused. -/
def perform (made : List Query) (call : Call) : List Query :=
  match call.answer? made with
  | some (.ok q) => made ++ [q]
  | _ => made

def afterCalls (made : List Query) (calls : List Call) : List Query := calls.foldl perform made

/-- A recorded filter by a set comes from a query of another universe. -/
def Handed.isForeign (made : List Query) (taker : Query) : Handed → Bool
  | .own .. => false
  | .recorded giver place =>
    made[giver]?.any fun q => q.pool.generation != taker.pool.generation &&
      q.filters[place]?.any fun f => f.set?.isSome

/-- A filter by a set goes from a query to one of another universe. -/
def Call.crosses (made : List Query) : Call → Bool
  | .filter taker f => made[taker]?.any fun q => f.isForeign made q
  | .filterAny taker fs => made[taker]?.any fun q => fs.any (·.isForeign made q)
  | _ => false

/-- One of the calls lets a filter by a set go to a query of another universe. -/
def crosses : List Query → List Call → Bool
  | _, [] => false
  | made, call :: calls => call.crosses made || crosses (perform made call) calls

section Own

variable {q : Query} {u : Universe} {f : Filter} {fs : List Filter} {set : PackageSet}

@[simp] theorem keepsOwnSets_filter : (q.filter f).KeepsOwnSets ↔
    q.KeepsOwnSets ∧ ∀ set, f.set? = some set → set.generation = q.pool.generation := by
  simp only [KeepsOwnSets, filter, List.forall_mem_append, List.forall_mem_singleton]

@[simp] theorem keepsOwnSets_filterAny : (q.filterAny fs).KeepsOwnSets ↔ q.KeepsOwnSets ∧
    ∀ f ∈ fs, ∀ set, f.set? = some set → set.generation = q.pool.generation := by
  simp only [KeepsOwnSets, filterAny, List.forall_mem_append]

theorem KeepsOwnSets.filter (h : q.KeepsOwnSets) (hf : f.set? = none) :
    (q.filter f).KeepsOwnSets := by
  rw [keepsOwnSets_filter]
  exact ⟨h, fun set hset => by simp [hf] at hset⟩

theorem KeepsOwnSets.nothing (h : q.KeepsOwnSets) : q.nothing.KeepsOwnSets := by
  rw [Query.nothing, keepsOwnSets_filter]
  refine ⟨h, fun set hset => ?_⟩
  cases hset
  rfl

theorem belongsTo_filter (h : q.result.BelongsTo q.pool) (f : Filter) :
    (q.filter f).result.BelongsTo q.pool :=
  h.of_partOf (apply_partOf h f)

theorem belongsTo_filterAny (h : q.result.BelongsTo q.pool) (fs : List Filter) :
    (q.filterAny fs).result.BelongsTo q.pool :=
  h.of_partOf (PackageSet.filter_partOf ..)

theorem ids_eq (h : q.result.BelongsTo q.pool) (set : PackageSet) :
    (set.BelongsTo q.pool ∧ q.ids set = .ok (q.filter (.ids set))) ∨
      (¬set.BelongsTo q.pool ∧
        q.ids set = .error ⟨q.pool.generation, set.generation⟩) := by
  have hspace : set.BelongsTo q.pool ↔
      q.result.generation = set.generation ∧ q.result.capacity = set.capacity := by
    rw [h.generation, h.capacity]
    exact ⟨fun hset => ⟨hset.generation.symm, hset.capacity.symm⟩,
      fun hset => ⟨hset.1.symm, hset.2.symm⟩⟩
  by_cases hset : set.BelongsTo q.pool
  · refine .inl ⟨hset, ?_⟩
    rw [ids, PackageSet.check, if_pos (hspace.mp hset)]
    rfl
  · refine .inr ⟨hset, ?_⟩
    rw [ids, PackageSet.check, if_neg (mt hspace.mpr hset), h.generation]
    rfl

end Own

end Query

namespace Selector

open Query

variable {u : Universe} {P : Query → Prop}

/-- The query of a selector is narrowed from the considered packages, by no set but the empty
set of the universe. -/
theorem query_induction (s : Selector) (hall : P (considered u))
    (hfilter : ∀ q f, f.set? = none → P q → P (q.filter f)) (hnothing : ∀ q, P q → P q.nothing) :
    P (s.query u) := by
  have hbase : P (s.base u) := by
    rw [base]
    cases s.arch <;> cases s.repo <;> cases s.evr <;>
      repeat first | exact hall | refine hfilter _ _ rfl ?_
  have hnamed : ∀ q ∈ s.namedQueries (s.base u), P q := by
    intro q hq
    rw [namedQueries] at hq
    split at hq
    · obtain ⟨reading, -, rfl⟩ := List.mem_map.mp hq
      exact hfilter _ _ rfl hbase
    · cases List.mem_singleton.mp hq
      exact hfilter _ _ rfl hbase
    · cases hq
  rw [query]
  split
  · split
    · exact hfilter _ _ rfl hbase
    · exact hnothing _ hbase
  · split
    · next q hq => exact hnamed q (List.mem_of_find?_eq_some hq)
    · split
      · exact hfilter _ _ rfl hbase
      · exact hnothing _ hbase

end Selector

namespace Query

section Calls

variable {made : List Query} {call : Call} {calls : List Call} {q taker : Query} {f : Handed}

theorem belongsTo_query (s : Selector) (u : Universe) :
    (s.query u).result.BelongsTo (s.query u).pool := by
  apply s.query_induction (P := fun q => q.result.BelongsTo q.pool)
  · exact ⟨u.considered_generation, u.considered_capacity⟩
  · exact fun q f _ h => belongsTo_filter h f
  · exact fun q h => belongsTo_filter h _

theorem keepsOwnSets_query (s : Selector) (u : Universe) : (s.query u).KeepsOwnSets := by
  apply s.query_induction
  · simp [KeepsOwnSets, considered]
  · exact fun q f hf h => h.filter hf
  · exact fun q h => h.nothing

theorem start_own {u : Universe} {origin : Start} (h : origin.query u = .ok q) :
    q.result.BelongsTo q.pool ∧ q.KeepsOwnSets := by
  obtain ⟨hpool, hresult, hmembers⟩ := query_eq_ok h
  have hfilters : q.filters = [] := by
    cases origin with
    | considered => cases h; rfl
    | all => cases h; rfl
    | ofSet set =>
      obtain ⟨-, -, h⟩ := Universe.bind_eq_ok h
      cases h
      rfl
  exact ⟨hpool ▸ hresult ▸ hmembers, by simp [KeepsOwnSets, hfilters]⟩

theorem belongsTo_of_answer (hmade : ∀ q ∈ made, q.result.BelongsTo q.pool)
    (hq : call.answer? made = some (.ok q)) : q.result.BelongsTo q.pool := by
  cases call with
  | start u origin => exact (start_own (Option.some.inj hq)).1
  | select u s =>
    cases hq
    exact belongsTo_query s u
  | filter taker f =>
    obtain ⟨t, ht, hq⟩ := Option.bind_eq_some_iff.mp hq
    obtain ⟨g, -, hq⟩ := Option.map_eq_some_iff.mp hq
    cases hq
    exact belongsTo_filter (hmade t (List.mem_of_getElem? ht)) g
  | filterAny taker fs =>
    obtain ⟨t, ht, hq⟩ := Option.map_eq_some_iff.mp hq
    cases hq
    exact belongsTo_filterAny (hmade t (List.mem_of_getElem? ht)) _
  | ids taker set =>
    obtain ⟨t, ht, hq⟩ := Option.map_eq_some_iff.mp hq
    obtain ⟨-, -, hq⟩ := Universe.bind_eq_ok hq
    cases hq
    exact belongsTo_filter (hmade t (List.mem_of_getElem? ht)) _

/-- While all queries keep to their own sets, a filter by a set is as foreign as its giver. -/
theorem isForeign_eq_false_iff (hown : ∀ q ∈ made, q.KeepsOwnSets) :
    f.isForeign made taker = false ↔ ∀ g, f.get? made = some g →
      ∀ set, g.set? = some set → set.generation = taker.pool.generation := by
  cases f with
  | own g plain => simp [Handed.isForeign, Handed.get?, plain]
  | recorded giver place =>
    simp only [Handed.isForeign, Handed.get?]
    cases hgiver : made[giver]? with
    | none => simp
    | some q =>
      cases hplace : q.filters[place]? with
      | none => simp [hplace]
      | some g =>
        cases hset : g.set? with
        | none => simp [hplace, hset]
        | some set =>
          have hgeneration := hown q (List.mem_of_getElem? hgiver) g
            (List.mem_of_getElem? hplace) set hset
          simp [hplace, hset, hgeneration]

theorem keepsOwnSets_of_answer_iff (hmade : ∀ q ∈ made, q.result.BelongsTo q.pool)
    (hown : ∀ q ∈ made, q.KeepsOwnSets) (hq : call.answer? made = some (.ok q)) :
    q.KeepsOwnSets ↔ call.crosses made = false := by
  cases call with
  | start u origin => exact iff_of_true (start_own (Option.some.inj hq)).2 rfl
  | select u s =>
    cases hq
    exact iff_of_true (keepsOwnSets_query s u) rfl
  | filter taker f =>
    obtain ⟨t, ht, hq⟩ := Option.bind_eq_some_iff.mp hq
    obtain ⟨g, hg, hq⟩ := Option.map_eq_some_iff.mp hq
    cases hq
    have htaker := hown t (List.mem_of_getElem? ht)
    simp [Call.crosses, ht, htaker, isForeign_eq_false_iff hown, hg]
  | filterAny taker fs =>
    obtain ⟨t, ht, hq⟩ := Option.map_eq_some_iff.mp hq
    cases hq
    have htaker := hown t (List.mem_of_getElem? ht)
    simp only [Call.crosses, ht, Option.any_some, List.any_eq_false, Bool.not_eq_true,
      keepsOwnSets_filterAny, htaker, true_and, List.mem_filterMap, forall_exists_index, and_imp]
    constructor
    · intro h f hf
      rw [isForeign_eq_false_iff hown]
      exact fun g hg => h g f hf hg
    · intro h g f hf hg
      exact (isForeign_eq_false_iff hown).mp (h f hf) g hg
  | ids taker set =>
    obtain ⟨t, ht, hq⟩ := Option.map_eq_some_iff.mp hq
    have htaker := List.mem_of_getElem? ht
    refine iff_of_true ?_ rfl
    rcases ids_eq (hmade t htaker) set with ⟨hset, hids⟩ | ⟨-, hids⟩
    · rw [hids] at hq
      cases hq
      rw [keepsOwnSets_filter]
      refine ⟨hown t htaker, fun other hother => ?_⟩
      cases hother
      exact hset.generation
    · rw [hids] at hq
      cases hq

theorem crosses_eq_false_of_answer (hown : ∀ q ∈ made, q.KeepsOwnSets)
    (hnone : ∀ q, call.answer? made ≠ some (.ok q)) : call.crosses made = false := by
  cases call with
  | start | select | ids => rfl
  | filter taker f =>
    rw [Call.crosses]
    cases ht : made[taker]? with
    | none => rfl
    | some t =>
      rw [Option.any_some, isForeign_eq_false_iff hown]
      intro g hg
      exact absurd (by simp [Call.answer?, ht, hg]) (hnone (t.filter g))
  | filterAny taker fs =>
    rw [Call.crosses]
    cases ht : made[taker]? with
    | none => rfl
    | some t => exact absurd (by simp [Call.answer?, ht]; rfl) (hnone _)

theorem perform_cases (made : List Query) (call : Call) :
    (∃ q, call.answer? made = some (.ok q) ∧ perform made call = made ++ [q]) ∨
      (∀ q, call.answer? made ≠ some (.ok q)) ∧ perform made call = made := by
  rw [perform]
  split
  · next q hq => exact .inl ⟨q, hq, rfl⟩
  · next hnone => exact .inr ⟨hnone, rfl⟩

theorem mem_afterCalls_of_mem (calls : List Call) (hq : q ∈ made) : q ∈ afterCalls made calls := by
  induction calls generalizing made with
  | nil => exact hq
  | cons call calls ih =>
    apply ih
    rcases perform_cases made call with ⟨new, -, hmade⟩ | ⟨-, hmade⟩
    · rw [hmade]
      exact List.mem_append_left _ hq
    · rwa [hmade]

theorem belongsTo_perform (call : Call) (hmade : ∀ q ∈ made, q.result.BelongsTo q.pool) :
    ∀ q ∈ perform made call, q.result.BelongsTo q.pool := by
  rcases perform_cases made call with ⟨q, hq, hperform⟩ | ⟨-, hperform⟩
  · rw [hperform, List.forall_mem_append, List.forall_mem_singleton]
    exact ⟨hmade, belongsTo_of_answer hmade hq⟩
  · rwa [hperform]

theorem belongsTo_afterCalls (hmade : ∀ q ∈ made, q.result.BelongsTo q.pool) :
    ∀ q ∈ afterCalls made calls, q.result.BelongsTo q.pool := by
  induction calls generalizing made with
  | nil => exact hmade
  | cons call calls ih => exact ih (belongsTo_perform call hmade)

/-- Queries are only added, so what a call has let go to a foreign query is there at the end. -/
theorem keepsOwnSets_afterCalls_iff (hmade : ∀ q ∈ made, q.result.BelongsTo q.pool)
    (hown : ∀ q ∈ made, q.KeepsOwnSets) :
    (∀ q ∈ afterCalls made calls, q.KeepsOwnSets) ↔ crosses made calls = false := by
  induction calls generalizing made with
  | nil => exact iff_of_true hown rfl
  | cons call calls ih =>
    have hrest : afterCalls made (call :: calls) = afterCalls (perform made call) calls := rfl
    have hnext := belongsTo_perform call hmade
    rw [hrest, crosses, Bool.or_eq_false_iff]
    rcases perform_cases made call with ⟨q, hq, hperform⟩ | ⟨hnone, hperform⟩
    · have hkeeps := keepsOwnSets_of_answer_iff hmade hown hq
      cases hcrosses : call.crosses made with
      | true =>
        have hforeign : ¬q.KeepsOwnSets := by simp [hkeeps, hcrosses]
        refine iff_of_false (fun hall => hforeign (hall q ?_)) (by simp)
        exact mem_afterCalls_of_mem calls (hperform ▸ List.mem_append_right _ List.mem_cons_self)
      | false =>
        rw [ih hnext, and_iff_right rfl]
        rw [hperform, List.forall_mem_append, List.forall_mem_singleton]
        exact ⟨hown, hkeeps.mpr hcrosses⟩
    · rw [crosses_eq_false_of_answer hown hnone, ih hnext (by rwa [hperform]), and_iff_right rfl]

end Calls

/-- After any calls, the sets that queries filter by are all of the queries' own universes if and
only if no call let a recorded filter by a set go to a query of another universe. A set itself is
refused by every query of another universe. -/
theorem sets_stay_home_iff (calls : List Call) :
    ((∀ q ∈ afterCalls [] calls, q.KeepsOwnSets) ↔ crosses [] calls = false) ∧
      ∀ q ∈ afterCalls [] calls, ∀ set : PackageSet,
        (set.BelongsTo q.pool ∧ q.ids set = .ok (q.filter (.ids set))) ∨
          (¬set.BelongsTo q.pool ∧
            q.ids set = .error ⟨q.pool.generation, set.generation⟩) := by
  have hnone : ∀ q ∈ ([] : List Query), q.result.BelongsTo q.pool := by simp
  exact ⟨keepsOwnSets_afterCalls_iff hnone (by simp),
    fun q hq set => ids_eq (belongsTo_afterCalls hnone q hq) set⟩

def twoTools (generation : Nat) : Except LoadError Universe :=
  Universe.build generation
    [⟨"base", defaultPriority, false, [.noarch "hammer" "1", .noarch "saw" "1"]⟩]

def firstTools : Universe := (twoTools 1).toOption.get (by decide +kernel)

def secondTools : Universe := (twoTools 2).toOption.get (by decide +kernel)

/-- A set of the first universe is taken there and taken again from the record, and refused by a
query over the second. -/
def hammerKept : List Call :=
  [.start firstTools .considered, .ids 0 (.ofIds 1 2 [0]),
    .filterAny 0 [.recorded 1 0, .own (.name (.exact "saw")) rfl], .start secondTools .all,
    .ids 3 (.ofIds 1 2 [0])]

theorem hammerKept_own :
    (afterCalls [] hammerKept).map (·.result.toList) = [[0, 1], [0], [0, 1], [0, 1]] ∧
      crosses [] hammerKept = false ∧ (∀ q ∈ afterCalls [] hammerKept, q.KeepsOwnSets) ∧
      Query.all secondTools ∈ afterCalls [] hammerKept ∧
      (Query.all secondTools).ids (.ofIds 1 2 [0]) = .error ⟨2, 1⟩ := by
  have hcrosses : crosses [] hammerKept = false := by decide +kernel
  obtain ⟨hkeeps, hids⟩ := sets_stay_home_iff hammerKept
  have hmem : Query.all secondTools ∈ afterCalls [] hammerKept :=
    List.mem_of_getElem? (i := 3) rfl
  refine ⟨by decide +kernel, hcrosses, hkeeps.mpr hcrosses, hmem, ?_⟩
  rcases hids _ hmem (.ofIds 1 2 [0]) with ⟨hset, -⟩ | ⟨-, hrefused⟩
  · exact absurd hset.generation (by decide +kernel)
  · exact hrefused

/-- The same set is refused by the second universe, but taken as soon as it comes by a recorded
filter, and then it decides by the numbers of the first. -/
theorem hammerFilter_taken :
    let calls : List Call := [.start firstTools .considered, .ids 0 (.ofIds 1 2 [0]),
      .start secondTools .considered, .filterAny 2 [.recorded 1 0]]
    (∃ q, (afterCalls [] calls)[3]? = some q ∧ q.pool.generation = 2 ∧ q.result.toList = [0]) ∧
      ¬∀ q ∈ afterCalls [] calls, q.KeepsOwnSets := by
  intro calls
  have hcrosses : crosses [] calls = true := by decide +kernel
  refine ⟨⟨_, rfl, by decide +kernel, by decide +kernel⟩, ?_⟩
  rw [keepsOwnSets_afterCalls_iff (by simp) (by simp), hcrosses]
  decide

end Query

end Depsolve
