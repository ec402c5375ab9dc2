import Depsolve.Proofs.Solver.Run
import Depsolve.Proofs.Universe.Renaming
import Depsolve.Proofs.Universe.Sample
import Mathlib.Data.List.TakeWhile
/-!
# What cleaning up takes off

After an erase, packages that came as dependencies go when nothing needs them anymore. A package
that is still needed leaves the queue and comes back to it when one of those that need it goes. So
in whatever order the queue is worked off, the least set goes that such packages have to be in.
-/
namespace Depsolve.Search

open Relation

variable {s : Search} {t t' : Trial} {removed : List PackageId} {queue queue' c c' : IdSet}
  {x y : Trial × IdSet} {p q id : PackageId}

theorem mem_neededBy : q ∈ s.neededBy t p ↔ q ∈ t.present ∧ s.pool.Needs p q := by
  rw [neededBy, IdSet.mem_inter, IdSet.mem_foldl_union, and_comm]
  apply and_congr_right
  intro _
  rw [s.links_eq, Links.requiresOf_ofUniverse]
  constructor
  · intro h
    rcases h with hempty | ⟨need, hneed, hq⟩
    · exact absurd hempty (IdSet.not_mem_empty q)
    · obtain ⟨d, hd, rfl⟩ := List.mem_map.mp hneed
      exact ⟨d, hd, Links.mem_providers.mp hq⟩
  · intro h
    obtain ⟨d, hd, hq⟩ := h
    exact .inr ⟨_, List.mem_map_of_mem hd, Links.mem_providers.mpr hq⟩

variable (s) in
/-- A package that came as a dependency and that nothing holds on to. -/
structure Disposable (t : Trial) (q : PackageId) : Prop where
  initial : q ∈ s.initial
  unpinned : q ∉ t.pinned
  unguarded : q ∉ s.guarded
  reason : (t.reasons.get? q).getD (s.get q).reason = .dependency ∨
    (t.reasons.get? q).getD (s.get q).reason = .weakDependency

theorem isUnneeded_iff_disposable : s.isUnneeded t q = true ↔ q ∈ t.present ∧ s.Disposable t q ∧
    ∀ p ∈ t.present, p ≠ q → ¬ s.pool.Needs p q := by
  rw [isUnneeded_iff]
  constructor
  · intro h
    obtain ⟨hpresent, hinitial, hunpinned, hunguarded, hreason, hneeded⟩ := h
    refine ⟨hpresent, ⟨hinitial, hunpinned, hunguarded, hreason⟩, ?_⟩
    intro p hp hne hneeds
    obtain ⟨d, hd, hprovides⟩ := hneeds
    exact hneeded p hp hne d hd hprovides
  · intro h
    obtain ⟨hpresent, hdisposable, hneeded⟩ := h
    refine ⟨hpresent, hdisposable.initial, hdisposable.unpinned, hdisposable.unguarded,
      hdisposable.reason, ?_⟩
    intro p hp hne d hd hprovides
    exact hneeded p hp hne ⟨d, hd, hprovides⟩

variable (s) in
/-- A package was removed or has gone since, so that what it needed may have become unneeded. -/
def Abandoned (t t' : Trial) (removed : List PackageId) (q : PackageId) : Prop :=
  ∃ p, (p ∈ removed ∨ p ∈ t.present ∧ p ∉ t'.present) ∧ s.pool.Needs p q

variable (s) in
/-- A set has every package that nothing needs but packages of the set. It counts only what a
package that was removed, or one of the set, has needed. -/
def Closed (t : Trial) (removed : List PackageId) (c : IdSet) : Prop :=
  ∀ q ∈ t.present, s.Disposable t q → (∃ p, (p ∈ removed ∨ p ∈ c) ∧ s.pool.Needs p q) →
    (∀ p ∈ t.present, p ≠ q → s.pool.Needs p q → p ∈ c) → q ∈ c

variable (s) in
/-- The least closed set. -/
structure Leftover (t : Trial) (removed : List PackageId) (c : IdSet) : Prop where
  closed : s.Closed t removed c
  least : ∀ c', s.Closed t removed c' → ∀ q ∈ c, q ∈ c'

theorem Leftover.unique (h : s.Leftover t removed c) (h' : s.Leftover t removed c') : c = c' := by
  ext q
  exact ⟨h.least c' h'.closed q, h'.least c h.closed q⟩

variable (s) in
/-- One look at a queued package. If nothing needs it, it goes, and what it needed is queued. -/
inductive CleanStep : Trial × IdSet → Trial × IdSet → Prop
  | keep {t : Trial} {queue : IdSet} {id : PackageId} (hid : id ∈ queue)
      (hneeded : s.isUnneeded t id = false) : CleanStep (t, queue) (t, queue.erase id)
  | drop {t : Trial} {queue : IdSet} {id : PackageId} (hid : id ∈ queue)
      (hunneeded : s.isUnneeded t id = true) :
      CleanStep (t, queue) ({ t with present := t.present.erase id },
        (queue.erase id).union (s.neededBy { t with present := t.present.erase id } id))

/-- Cleaning up ends in every order: there are fewer packages after a look, or as many and fewer
that are queued. -/
theorem cleanStep_wellFounded (s : Search) : WellFounded fun y x => s.CleanStep x y := by
  have hlex := (Prod.lex Nat.lt_wfRel Nat.lt_wfRel).wf
  apply Subrelation.wf ?_ (InvImage.wf (fun x : Trial × IdSet => (x.1.present.size, x.2.size)) hlex)
  intro y x h
  cases h with
  | keep hid =>
    apply Prod.Lex.right
    have := IdSet.size_erase hid
    exact Nat.lt_of_succ_le (Nat.le_of_eq this)
  | drop _ hunneeded =>
    apply Prod.Lex.left
    have := IdSet.size_erase (isUnneeded_iff_disposable.mp hunneeded).1
    exact Nat.lt_of_succ_le (Nat.le_of_eq this)

variable (s) in
/-- The packages that are looked at first: whatever the removed ones have needed. -/
def cleanQueue (t : Trial) (removed : List PackageId) : IdSet :=
  removed.foldl (fun all id => all.union (s.neededBy t id)) .empty

theorem mem_cleanQueue :
    q ∈ s.cleanQueue t removed ↔ q ∈ t.present ∧ ∃ p ∈ removed, s.pool.Needs p q := by
  have hempty : q ∉ IdSet.empty := IdSet.not_mem_empty q
  simp [cleanQueue, IdSet.mem_foldl_union, mem_neededBy, hempty, and_left_comm]

variable (s t removed) in
/-- In the middle of cleaning up, only what is in every closed set has gone, and what could go is
queued unless something needs it. -/
structure Cleaned (x : Trial × IdSet) : Prop where
  frame : x.1 = { t with present := x.1.present }
  subset : ∀ q ∈ x.1.present, q ∈ t.present
  least : ∀ c, s.Closed t removed c → ∀ q ∈ t.present, q ∉ x.1.present → q ∈ c
  cause : ∀ q ∈ x.2, s.Abandoned t x.1 removed q
  frontier : ∀ q ∈ x.1.present, s.Abandoned t x.1 removed q →
    q ∈ x.2 ∨ s.isUnneeded x.1 q = false

theorem cleaned_start : s.Cleaned t removed (t, s.cleanQueue t removed) where
  frame := rfl
  subset := fun _ hq => hq
  least := fun _ _ _ hq hgone => absurd hq hgone
  cause := by
    intro q hq
    obtain ⟨-, p, hp, hneeds⟩ := mem_cleanQueue.mp hq
    exact ⟨p, .inl hp, hneeds⟩
  frontier := by
    intro q hq habandoned
    left
    obtain ⟨p, hp | ⟨hp, hgone⟩, hneeds⟩ := habandoned
    · exact mem_cleanQueue.mpr ⟨hq, p, hp, hneeds⟩
    · exact absurd hp hgone

theorem Cleaned.disposable (h : s.Cleaned t removed (t', queue)) :
    s.Disposable t' q ↔ s.Disposable t q := by
  have hframe : t' = { t with present := t'.present } := h.frame
  rw [hframe]
  exact ⟨fun h => ⟨h.initial, h.unpinned, h.unguarded, h.reason⟩,
    fun h => ⟨h.initial, h.unpinned, h.unguarded, h.reason⟩⟩

theorem Cleaned.keep (h : s.Cleaned t removed (t', queue)) (hneeded : s.isUnneeded t' id = false) :
    s.Cleaned t removed (t', queue.erase id) where
  frame := h.frame
  subset := h.subset
  least := h.least
  cause := by
    intro q hq
    exact h.cause q (IdSet.mem_erase.mp hq).1
  frontier := by
    intro q hq habandoned
    by_cases heq : q = id
    · exact .inr (heq ▸ hneeded)
    · apply (h.frontier q hq habandoned).imp_left
      intro hqueued
      exact IdSet.mem_erase.mpr ⟨hqueued, heq⟩

/-- A package that is needed by nothing that is left is in every closed set, for what needed it
is. -/
theorem Cleaned.mem_closed (h : s.Cleaned t removed (t', queue)) (hid : id ∈ queue)
    (hunneeded : s.isUnneeded t' id = true) (hc : s.Closed t removed c) : id ∈ c := by
  obtain ⟨hpresent, hdisposable, hneeded⟩ := isUnneeded_iff_disposable.mp hunneeded
  apply hc id (h.subset id hpresent) (h.disposable.mp hdisposable)
  · obtain ⟨p, hp | ⟨hp, hgone⟩, hneeds⟩ := h.cause id hid
    · exact ⟨p, .inl hp, hneeds⟩
    · exact ⟨p, .inr (h.least c hc p hp hgone), hneeds⟩
  · intro p hp hne hneeds
    apply h.least c hc p hp
    intro hthere
    exact hneeded p hthere hne hneeds

theorem Cleaned.drop (h : s.Cleaned t removed (t', queue)) (hid : id ∈ queue)
    (hunneeded : s.isUnneeded t' id = true) :
    s.Cleaned t removed ({ t' with present := t'.present.erase id },
      (queue.erase id).union (s.neededBy { t' with present := t'.present.erase id } id)) where
  frame := by
    have hframe : t' = { t with present := t'.present } := h.frame
    rw [hframe]
  subset := by
    intro q hq
    exact h.subset q (IdSet.mem_erase.mp hq).1
  least := by
    intro c hc q hq hgone
    by_cases heq : q = id
    · exact heq ▸ h.mem_closed hid hunneeded hc
    · apply h.least c hc q hq
      intro hthere
      exact hgone (IdSet.mem_erase.mpr ⟨hthere, heq⟩)
  cause := by
    intro q hq
    rcases IdSet.mem_union.mp hq with hold | hnew
    · obtain ⟨p, hp | ⟨hp, hgone⟩, hneeds⟩ := h.cause q (IdSet.mem_erase.mp hold).1
      · exact ⟨p, .inl hp, hneeds⟩
      · refine ⟨p, .inr ⟨hp, ?_⟩, hneeds⟩
        intro hthere
        exact hgone (IdSet.mem_erase.mp hthere).1
    · have hpresent := (isUnneeded_iff_disposable.mp hunneeded).1
      refine ⟨id, .inr ⟨h.subset id hpresent, ?_⟩, (mem_neededBy.mp hnew).2⟩
      intro hthere
      exact (IdSet.mem_erase.mp hthere).2 rfl
  frontier := by
    intro q hq habandoned
    obtain ⟨hthere, hne⟩ := IdSet.mem_erase.mp hq
    -- what `id` needed is queued now, all else is as it was
    by_cases hneeds : s.pool.Needs id q
    · exact .inl (IdSet.mem_union.mpr (.inr (mem_neededBy.mpr ⟨hq, hneeds⟩)))
    · have hbefore : s.Abandoned t t' removed q := by
        obtain ⟨p, hp | ⟨hp, hgone⟩, hpq⟩ := habandoned
        · exact ⟨p, .inl hp, hpq⟩
        · refine ⟨p, .inr ⟨hp, ?_⟩, hpq⟩
          intro hpthere
          apply hgone
          refine IdSet.mem_erase.mpr ⟨hpthere, ?_⟩
          intro heq
          exact hneeds (heq ▸ hpq)
      rcases h.frontier q hthere hbefore with hqueued | hneeded
      · exact .inl (IdSet.mem_union.mpr (.inl (IdSet.mem_erase.mpr ⟨hqueued, hne⟩)))
      · right
        rw [Bool.eq_false_iff] at hneeded ⊢
        intro hfree
        apply hneeded
        obtain ⟨-, hdisposable, hnone⟩ := isUnneeded_iff_disposable.mp hfree
        refine isUnneeded_iff_disposable.mpr ⟨hthere, ?_, ?_⟩
        · exact ⟨hdisposable.initial, hdisposable.unpinned, hdisposable.unguarded,
            hdisposable.reason⟩
        · intro p hp hpq hpneeds
          by_cases heq : p = id
          · exact hneeds (heq ▸ hpneeds)
          · exact hnone p (IdSet.mem_erase.mpr ⟨hp, heq⟩) hpq hpneeds

theorem Cleaned.run (h : s.Cleaned t removed x) (hrun : ReflTransGen s.CleanStep x y) :
    s.Cleaned t removed y := by
  induction hrun with
  | refl => exact h
  | tail _ hlast ih =>
    cases hlast with
    | keep _ hneeded => exact ih.keep hneeded
    | drop hid hunneeded => exact ih.drop hid hunneeded

theorem Cleaned.leftover (h : s.Cleaned t removed (t', ∅)) :
    s.Leftover t removed (t.present.diff t'.present) := by
  constructor
  · intro q hq hdisposable hcause hneeded
    refine IdSet.mem_diff.mpr ⟨hq, ?_⟩
    intro hthere
    have habandoned : s.Abandoned t t' removed q := by
      obtain ⟨p, hp | hp, hneeds⟩ := hcause
      · exact ⟨p, .inl hp, hneeds⟩
      · exact ⟨p, .inr (IdSet.mem_diff.mp hp), hneeds⟩
    rcases h.frontier q hthere habandoned with hqueued | hfalse
    · exact IdSet.not_mem_empty q hqueued
    · rw [Bool.eq_false_iff] at hfalse
      apply hfalse
      refine isUnneeded_iff_disposable.mpr ⟨hthere, h.disposable.mpr hdisposable, ?_⟩
      intro p hp hne hneeds
      exact (IdSet.mem_diff.mp (hneeded p (h.subset p hp) hne hneeds)).2 hp
  · intro c hc q hq
    obtain ⟨hpresent, hgone⟩ := IdSet.mem_diff.mp hq
    exact h.least c hc q hpresent hgone

theorem Cleaned.eq_diff (h : s.Cleaned t removed (t', ∅)) (hc : s.Leftover t removed c) :
    t' = { t with present := t.present.diff c } := by
  have hsame := hc.unique h.leftover
  have hpresent : t.present.diff c = t'.present := by
    ext q
    rw [hsame, IdSet.mem_diff, IdSet.mem_diff]
    constructor
    · intro hq
      by_contra hgone
      exact hq.2 ⟨hq.1, hgone⟩
    · intro hq
      exact ⟨h.subset q hq, fun hgone => hgone.2 hq⟩
  rw [hpresent]
  exact h.frame

theorem pass_steps {ids rest : List PackageId} (hnodup : (ids ++ rest).Nodup)
    (hneeded : ∀ id ∈ ids, s.isUnneeded t id = false) :
    ReflTransGen s.CleanStep (t, .ofList (ids ++ rest)) (t, .ofList rest) := by
  induction ids with
  | nil => exact .refl
  | cons id ids ih =>
    obtain ⟨hfirst, hothers⟩ := List.forall_mem_cons.mp hneeded
    obtain ⟨hid, hnodup⟩ := List.nodup_cons.mp (List.cons_append ▸ hnodup)
    have hstep : s.CleanStep (t, .ofList (id :: (ids ++ rest)))
        (t, (IdSet.ofList (id :: (ids ++ rest))).erase id) :=
      .keep (IdSet.mem_ofList.mpr List.mem_cons_self) hfirst
    rw [IdSet.erase_ofList_cons hid] at hstep
    exact .head hstep (ih hnodup hothers)

/-- The queue is worked off from the lowest package on, and the fuel lasts until it is empty. -/
theorem cleanFrom_steps {fuel : Nat} {ids : List PackageId} (hfuel : t.present.size < fuel)
    (hnodup : ids.Nodup) :
    ReflTransGen s.CleanStep (t, .ofList ids) ((s.cleanFrom fuel t ids).1, ∅) := by
  induction fuel generalizing t ids with
  | zero => exact absurd hfuel (Nat.not_lt_zero _)
  | succ fuel ih =>
    let passed := ids.takeWhile fun id => !s.isUnneeded t id
    have hsplit : passed ++ ids.dropWhile (fun id => !s.isUnneeded t id) = ids :=
      List.takeWhile_append_dropWhile
    have hpassed : ∀ id ∈ passed, s.isUnneeded t id = false := by
      intro id hid
      simpa using List.mem_takeWhile_imp hid
    rw [← hsplit] at hnodup
    have hpass := pass_steps hnodup hpassed
    rw [hsplit] at hpass
    rw [cleanFrom]
    split
    · rename_i hrest
      rw [hrest] at hpass
      exact hpass
    · rename_i id rest hrest
      rw [hrest] at hpass hnodup
      have hfirst := List.head?_dropWhile_not (fun id => !s.isUnneeded t id) ids
      rw [hrest] at hfirst
      have hunneeded : s.isUnneeded t id = true := by simpa using hfirst
      have hid : id ∉ rest := (List.nodup_cons.mp (List.nodup_append.mp hnodup).2.1).1
      have hdrop : s.CleanStep (t, .ofList (id :: rest)) _ :=
        .drop (IdSet.mem_ofList.mpr List.mem_cons_self) hunneeded
      rw [IdSet.erase_ofList_cons hid] at hdrop
      have hsize := IdSet.size_erase (isUnneeded_iff_disposable.mp hunneeded).1
      have hless : (t.present.erase id).size < fuel := by omega
      have hnext := ih (t := { t with present := t.present.erase id }) hless
        (IdSet.toList_nodup ((IdSet.ofList rest).union
          (s.neededBy { t with present := t.present.erase id } id)))
      rw [IdSet.ofList_toList] at hnext
      exact hpass.trans (.head hdrop hnext)

theorem cleanDeps_steps (s : Search) (t : Trial) (removed : List PackageId) :
    ReflTransGen s.CleanStep (t, s.cleanQueue t removed) ((s.cleanDeps t removed).1, ∅) := by
  have hsteps := cleanFrom_steps (s := s) (Nat.lt_succ_self t.present.size)
    (IdSet.toList_nodup (s.cleanQueue t removed))
  rwa [IdSet.ofList_toList] at hsteps

theorem Leftover.unneeded (h : s.Leftover t removed c) : ∀ q ∈ c, q ∈ t.present ∧
    s.Disposable t q ∧ ∀ p ∈ t.present, p ∉ c → ¬ s.pool.Needs p q := by
  classical
  -- a closed set stays closed without the packages that it has for no reason
  let due (q : PackageId) : Prop := q ∈ t.present ∧ s.Disposable t q ∧
    ∀ p ∈ t.present, p ≠ q → s.pool.Needs p q → p ∈ c
  have hclosed : s.Closed t removed (c.filter (due ·)) := by
    intro q hq hdisposable hcause hneeded
    have hdue : due q := by
      refine ⟨hq, hdisposable, ?_⟩
      intro p hp hne hneeds
      exact (IdSet.mem_filter.mp (hneeded p hp hne hneeds)).1
    have hcause' : ∃ p, (p ∈ removed ∨ p ∈ c) ∧ s.pool.Needs p q := by
      obtain ⟨p, hp, hneeds⟩ := hcause
      exact ⟨p, hp.imp_right fun hp => (IdSet.mem_filter.mp hp).1, hneeds⟩
    exact IdSet.mem_filter.mpr ⟨h.closed q hq hdisposable hcause' hdue.2.2, decide_eq_true hdue⟩
  intro q hq
  have hkept := (IdSet.mem_filter.mp (h.least _ hclosed q hq)).2
  obtain ⟨hpresent, hdisposable, hneeded⟩ : due q := of_decide_eq_true hkept
  refine ⟨hpresent, hdisposable, ?_⟩
  intro p hp hpc hneeds
  have hne : p ≠ q := by
    intro heq
    exact hpc (heq ▸ hq)
  exact hpc (hneeded p hp hne hneeds)

/-- Cleaning up ends, and takes off exactly the least set that has every package which came as a
dependency, is not held on to, and was needed by a removed package or one of the set but is not by
any other. So nothing that stays needs what it takes off, and it takes off the same in whatever
order queued packages are looked at. -/
theorem cleanDeps_exactly (s : Search) (t : Trial) (removed : List PackageId) :
    WellFounded (fun y x => s.CleanStep x y) ∧
    ReflTransGen s.CleanStep (t, s.cleanQueue t removed) ((s.cleanDeps t removed).1, ∅) ∧
    ∃ c, s.Leftover t removed c ∧
      (s.cleanDeps t removed).1 = { t with present := t.present.diff c } ∧
      (∀ t', ReflTransGen s.CleanStep (t, s.cleanQueue t removed) (t', ∅) →
        t' = { t with present := t.present.diff c }) ∧
      ∀ q ∈ c, q ∈ t.present ∧ s.Disposable t q ∧
        ∀ p ∈ t.present, p ∉ c → ¬ s.pool.Needs p q := by
  have hsteps := cleanDeps_steps s t removed
  have hcleaned : ∀ t', ReflTransGen s.CleanStep (t, s.cleanQueue t removed) (t', ∅) →
      s.Cleaned t removed (t', ∅) := fun _ hrun => cleaned_start.run hrun
  have hleftover := (hcleaned _ hsteps).leftover
  refine ⟨cleanStep_wellFounded s, hsteps, _, hleftover, ?_, ?_, hleftover.unneeded⟩
  · exact (hcleaned _ hsteps).eq_diff hleftover
  · intro t' hrun
    exact (hcleaned t' hrun).eq_diff hleftover

/-- An editor, a toolkit and the fonts that both need, and two services that need each other. -/
def workstation : Universe :=
  .sample
    [.noarch "editor" "1" [("requires", "toolkit, fonts, agent")],
      .noarch "toolkit" "1" [("requires", "fonts"), ("reason", "dependency")],
      .noarch "fonts" "1" [("reason", "dependency")],
      .noarch "agent" "1" [("requires", "bus"), ("reason", "dependency")],
      .noarch "bus" "1" [("requires", "agent"), ("reason", "dependency")]]
    [] (by decide +kernel)

/-- Without the editor the fonts go after the toolkit, but the services hold each other. -/
example : (((Solver.mk [] [] 100 none).search workstation []).cleanDeps
    { present := .ofList [1, 2, 3, 4] } [0]).1.present.toList = [3, 4] := by
  decide +kernel

end Depsolve.Search
