import Depsolve.Proofs.Cycle.Diagram
/-!
# Custody of the plan

There is one universe from the time it is built, one goal over it, and one plan: the outcome of
the last resolution. Executors are called in order, with this universe and this plan, and only
a plan that was carried out can be taken, once.
-/
namespace Depsolve

namespace Cycle

variable {c : Cycle} {l : Ledger} {s : CycleState} {k : Call} {turn : Turn (Option Plan)}

namespace Stage

theorem keeps_pool {u : Universe} (h : Stage l c c.state) (hpool : c.pool = some u)
    (hstep : Step c k turn) (hk : k.startsOver = false) :
    turn.cycle.state = .failed ∨ turn.cycle.pool = some u := by
  cases hstep with
  | failed => exact .inl rfl
  | broken => exact .inl rfl
  | loaded u' records hs =>
    rw [state_of_canEnter (s := .downloadMetadata) hs rfl nofun] at h
    cases h with
    | fetched h => cases hpool.symm.trans h.pool
  | startedOver _ hstart => cases hk.symm.trans hstart
  | _ => exact .inr hpool

theorem handed (h : Stage l c c.state) (hstep : Step c k turn) {u : Universe} {p : Plan}
    (hhanded : turn.handed = some (u, p)) :
    c.pool = some u ∧ p.problems = [] ∧ l.resolution = some (.ok p) := by
  obtain ⟨part, hpart, hgiven⟩ :
      ∃ part : ExecutorPart, c.canEnter part.state = true ∧ c.custody? = some (u, p) := by
    cases hstep with
    | broken e records given hk hs hgiven => exact ⟨_, hs, hgiven.trans hhanded⟩
    | handedOver records hk hs => exact ⟨_, hs, hhanded⟩
    | _ => cases hhanded
  obtain ⟨g, q, hover, hq, hplan, -, rfl⟩ := h.at_part hpart
  rw [custody?, hover.pool, hplan] at hgiven
  cases hgiven
  exact ⟨hover.pool, hq.problems_eq_nil, rfl⟩

/-- A plan can be taken when it was carried out, and as long as it was not taken. -/
theorem takePlan_iff (h : Stage l c c.state) {p : Plan} :
    c.takePlan.1 = some p ↔
      l.resolution = some (.ok p) ∧ l.completed = true ∧ l.taken = [] := by
  by_cases hs : c.state = .transaction
  · rw [hs] at h
    cases h with
    | done g q h => simp [takePlan, hs, h.executed, h.plan, h.ledger]
    | taken g q hover hplan hexecuted hledger =>
      simp [takePlan, hs, hexecuted, hplan, hledger]
  · simp [takePlan, hs, (h.unfinished hs).1]

theorem taken_once (h : Stage l c s) {p : Plan} (hp : p ∈ l.taken) :
    l.taken = [p] ∧ l.resolution = some (.ok p) ∧ l.completed = true := by
  by_cases hs : s = .transaction
  · subst hs
    cases h with
    | done g q h =>
      rw [h.ledger] at hp
      cases hp
    | taken g q hover hplan hexecuted hledger =>
      rw [hledger] at hp
      cases List.mem_singleton.mp hp
      exact hledger ▸ ⟨rfl, rfl, rfl⟩
  · rw [(h.unfinished hs).2] at hp
    cases hp

end Stage

end Cycle

namespace Session

open Depsolve.Cycle (Call Stage)

variable {s : Session}

theorem pool_run {u : Universe} {ks : List Call} (h : s.Staged)
    (hpool : s.cycle.pool = some u) (hks : ∀ k ∈ ks, k.startsOver = false) :
    (s.run ks).cycle.state = .failed ∨ (s.run ks).cycle.pool = some u := by
  refine run_unless_failed (P := fun c => c.pool = some u) h hpool hks
    fun part k hfront hstaged hpool => ?_
  exact Stage.keeps_pool hstaged hpool (Cycle.step_perform _) (hks k (hfront.subset (by simp)))

/-- An executor is called whenever that is allowed: the plan and the universe are there. -/
theorem handed_of_allows {k : Call} {part : ExecutorPart} (h : s.Staged)
    (hpart : k.part? = some part) (hallows : s.Allows k) :
    (s.cycle.perform k).handed.isSome = true := by
  have henters := Call.enters?_of_part? hpart
  have hcan : s.cycle.canEnter part.state = true := by
    rw [Allows, henters] at hallows
    exact (canEnter_iff_leads h (Call.ne_failed_of_enters? henters)).mpr hallows
  generalize hturn : s.cycle.perform k = turn
  have hstep : Cycle.Step s.cycle k turn := hturn ▸ Cycle.step_perform s.cycle
  cases hstep with
  | refused hk hs =>
    cases henters.symm.trans hk
    cases hs.symm.trans hcan
  | failed e records hk hnone => cases hpart.symm.trans hnone
  | broken => rfl
  | handedOver =>
    obtain ⟨g, p, hover, -, hplan, -⟩ := Stage.at_part h hcan
    rw [Cycle.custody?, hover.pool, hplan]
    rfl
  | closed hk => cases hk.symm.trans (Call.usesGoal_of_enters? henters)
  | startedOver _ hk => cases hk.symm.trans (Call.startsOver_of_part? hpart)
  | _ => cases hpart

/-- Universe, goal and plan of a session, what executors are given of them, and what can be
taken. The plan of a resolution has operations or problems, or none of both: a goal may be
satisfied by doing nothing. -/
theorem keeps_one_plan (o : CycleOptions) (solver : Solver) (ks : List Call) :
    let s := (start o solver).run ks
    (s.cycle.state.isFrom .sackReady = true → ∃ u, s.cycle.pool = some u ∧
      ∀ more : List Call, (∀ k ∈ more, k.startsOver = false) →
        (s.run more).cycle.state = .failed ∨ (s.run more).cycle.pool = some u) ∧
    (s.cycle.state.isFrom .buildTransaction = true →
      ∃ g, s.cycle.goal = some g ∧ s.cycle.pool = some g.pool) ∧
    (s.cycle.state = .resolveTransaction →
      ∃ p, s.cycle.plan = some p ∧ s.cycle.problems = p.problems ∧
        (p.operations = [] ∨ p.problems = []) ∧
        (p.problems = [] ↔ s.ledger.resolution = some (.ok p))) ∧
    s.ledger.parts <+: ExecutorPart.all ∧
    (∀ k, k.part?.isSome = true → s.Allows k → (s.cycle.perform k).handed.isSome = true) ∧
    (∀ k u p, (s.cycle.perform k).handed = some (u, p) →
      s.cycle.pool = some u ∧ p.problems = [] ∧ s.ledger.resolution = some (.ok p)) ∧
    (∀ p, (s.cycle.perform .takePlan).result = .ok (some p) ↔
      s.ledger.resolution = some (.ok p) ∧ s.ledger.completed = true ∧ s.ledger.taken = []) ∧
    (∀ p ∈ s.ledger.taken, s.ledger.taken = [p] ∧ s.ledger.resolution = some (.ok p) ∧
      s.ledger.completed = true) := by
  intro s
  have hstage : Stage s.ledger s.cycle s.cycle.state := (staged_start o solver).run ks
  refine ⟨fun hs => ?_, fun hs => ?_, fun hs => ?_, hstage.parts_prefix, fun k hk hallows => ?_,
    fun k u p => ?_, fun p => ?_, fun p => hstage.taken_once⟩
  · obtain ⟨u, hpool⟩ := hstage.exists_pool hs
    exact ⟨u, hpool, fun more hmore => pool_run hstage hpool hmore⟩
  · obtain ⟨g, hover⟩ := hstage.exists_over hs
    exact ⟨g, hover.goal, hover.pool⟩
  · rw [hs] at hstage
    cases hstage with
    | resolved g r hr hover hplan hproblems hexecuted hledger =>
      refine ⟨.ofOutcome r, hplan, hproblems, ?_, ?_⟩
      · cases r with
        | ok p => exact .inr hr.problems_eq_nil
        | error problems => exact .inl rfl
      · rw [hledger, ← List.isEmpty_iff]
        refine (Plan.isSuccess_ofOutcome hr).trans ⟨?_, ?_⟩
        · rintro ⟨p, rfl⟩
          rfl
        · exact fun h => ⟨_, Option.some.inj h⟩
  · obtain ⟨part, hpart⟩ := Option.isSome_iff_exists.mp hk
    exact handed_of_allows hstage hpart hallows
  · exact hstage.handed (Cycle.step_perform s.cycle)
  · rw [← hstage.takePlan_iff]
    exact ⟨fun h => Except.ok.inj h, congrArg Except.ok⟩

/-- A goal without requests has a plan with neither operations nor problems. -/
theorem emptyGoal_nothing_to_do :
    let s := (start { preset := some {} } (Settings.solver {})).run
      [.loadConfig {}, .downloadMetadata [], .loadSack, .buildTransaction, .resolve {}]
    s.cycle.state = .resolveTransaction ∧
      s.cycle.plan = some { operations := [], problems := [] } := by decide +kernel

end Session

end Depsolve
