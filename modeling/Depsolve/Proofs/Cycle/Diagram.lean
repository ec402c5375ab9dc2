import Depsolve.Proofs.Cycle.Stage
import Mathlib.Data.List.Chain
/-!
# The diagram of the states

A session goes along the arrows of a diagram: one arrow ahead from every state but the last
two, one back from resolving to building, and one to failure from everywhere. A call that the
diagram does not allow is refused and has no effect.
-/
namespace Depsolve

open Depsolve.Cycle (Call Stage Step)

/-- The arrows of the diagram. -/
inductive CycleState.Leads : CycleState → CycleState → Prop
  | ahead {s t : CycleState} (h : s.next? = some t) : Leads s t
  | back : Leads .resolveTransaction .buildTransaction
  | fail {s : CycleState} (h : s ≠ .failed) : Leads s .failed

namespace Session

/-- The arrows of the diagram with what they take: downloading takes a plan without problems,
and building again takes a goal that could not be satisfied. -/
inductive Leads (s : Session) : CycleState → CycleState → Prop
  | ahead {a b : CycleState} (h : a.next? = some b)
      (hplan : b = .downloadPackages → ∃ p, s.cycle.plan = some p ∧ p.problems = []) : s.Leads a b
  | back {problems : ProblemSet} (h : s.ledger.resolution = some (.error problems)) :
      s.Leads .resolveTransaction .buildTransaction
  | fail {a : CycleState} (h : a ≠ .failed) : s.Leads a .failed

/-- A call that enters a state is allowed where an arrow leads there, and one that works on the
goal from building on. Every other call is always allowed. -/
def Allows (s : Session) (k : Call) : Prop :=
  match k.enters? with
  | some t => s.Leads s.cycle.state t
  | none => k.usesGoal = true → s.cycle.state.isFrom .buildTransaction = true

variable {s : Session} {k : Call} {t : CycleState}

theorem Leads.arrow {a b : CycleState} (h : s.Leads a b) : a.Leads b := by
  cases h with
  | ahead h _ => exact .ahead h
  | back => exact .back
  | fail h => exact .fail h

/-- The test of the code is the arrow of the diagram. -/
theorem canEnter_iff_leads (h : s.Staged) (ht : t ≠ .failed) :
    s.cycle.canEnter t = true ↔ s.Leads s.cycle.state t := by
  rw [Staged] at h
  rw [Cycle.canEnter_iff]
  constructor
  · rintro (⟨hnext, hgood⟩ | ⟨hstate, rfl, hbad⟩)
    · refine .ahead hnext fun ht => ?_
      obtain ⟨p, hp, hsuccess⟩ := (Option.any_eq_true _ _).mp (hgood ht)
      exact ⟨p, hp, List.isEmpty_iff.mp hsuccess⟩
    · rw [hstate] at h ⊢
      cases h with
      | resolved g r hr hover hplan hproblems hexecuted hledger =>
        cases r with
        | error problems => exact .back (congrArg Ledger.resolution hledger)
        | ok p =>
          rw [Cycle.hasGoodPlan, hplan, Option.any_some,
            (Plan.isSuccess_ofOutcome hr).mpr ⟨p, rfl⟩] at hbad
          cases hbad
  · intro hleads
    generalize hstate : s.cycle.state = a at h hleads ⊢
    cases hleads with
    | ahead hnext hplan =>
      refine .inl ⟨hnext, fun ht => ?_⟩
      obtain ⟨p, hp, hproblems⟩ := hplan ht
      rw [Cycle.hasGoodPlan, hp, Option.any_some, Plan.isSuccess, hproblems]
      rfl
    | back hproblems =>
      cases h with
      | resolved g r hr hover hplan _ hexecuted hledger =>
        rw [hledger] at hproblems
        cases hproblems
        refine .inr ⟨rfl, rfl, Bool.eq_false_iff.mpr fun hsuccess => ?_⟩
        rw [Cycle.hasGoodPlan, hplan, Option.any_some] at hsuccess
        obtain ⟨p, hp⟩ := (Plan.isSuccess_ofOutcome hr).mp hsuccess
        cases hp
    | fail => exact absurd rfl ht

/-- The states that a call visits. -/
structure Visits (s : Session) (k : Call) (c : Cycle) (visited : List CycleState) : Prop where
  history : c.history = s.cycle.history ++ visited
  ends : (s.cycle.state :: visited).getLast? = some c.state
  chain : (s.cycle.state :: visited).IsChain s.Leads
  allowed : s.Allows k → k.enters?.toList <+: visited

theorem visits_entered {c : Cycle} {rest : List CycleState} (h : s.Staged)
    (hk : k.enters? = some t) (ht : s.cycle.canEnter t = true)
    (hhistory : c.history = s.cycle.history ++ t :: rest)
    (hends : (t :: rest).getLast? = some c.state) (hrest : (t :: rest).IsChain s.Leads) :
    s.Visits k c (t :: rest) where
  history := hhistory
  ends := by rw [List.getLast?_cons_cons]; exact hends
  chain := .cons_cons ((canEnter_iff_leads h (Call.ne_failed_of_enters? hk)).mp ht) hrest
  allowed _ := by rw [hk]; exact ⟨rest, rfl⟩

theorem visits_failed {c : Cycle} (h : s.Staged)
    (hk : k.enters? = some t) (ht : s.cycle.canEnter t = true) (hc : c = (s.cycle.enter t).failed) :
    s.Visits k c [t, .failed] := by
  subst hc
  refine visits_entered h hk ht ?_ rfl ?_
  · exact List.append_assoc ..
  · exact .cons_cons (.fail (Call.ne_failed_of_enters? hk)) (.singleton _)

theorem visits_none {c : Cycle} (hk : k.enters? = none) (hhistory : c.history = s.cycle.history)
    (hstate : c.state = s.cycle.state) : s.Visits k c [] where
  history := by rw [hhistory, List.append_nil]
  ends := congrArg some hstate.symm
  chain := .singleton _
  allowed _ := by rw [hk]; exact List.nil_prefix

theorem exists_visits (h : s.Staged) {turn : Turn (Option Plan)}
    (hstep : Step s.cycle k turn) (hk : k.startsOver = false) :
    ∃ visited, s.Visits k turn.cycle visited := by
  cases hstep with
  | refused henters hs =>
    have hnot : ¬ s.Allows k := by
      rw [Allows, henters]
      dsimp only
      rw [← canEnter_iff_leads h (Call.ne_failed_of_enters? henters), hs]
      exact Bool.false_ne_true
    exact ⟨[], (List.append_nil _).symm, rfl, .singleton _, fun hallows => absurd hallows hnot⟩
  | closed huses => exact ⟨[], visits_none (by cases k <;> first | rfl | cases huses) rfl rfl⟩
  | failed e records henters hpart hs => exact ⟨_, visits_failed h henters hs rfl⟩
  | broken e records given hpart hs =>
    exact ⟨_, visits_failed h (Call.enters?_of_part? hpart) hs rfl⟩
  | configured host config records hs =>
    exact ⟨_, visits_entered h rfl hs rfl rfl (.singleton _)⟩
  | fetched sources repos records hs =>
    exact ⟨_, visits_entered h rfl hs rfl rfl (.singleton _)⟩
  | loaded u records hs =>
    refine ⟨[.loadSack, .sackReady], visits_entered h rfl hs ?_ rfl ?_⟩
    · exact List.append_assoc ..
    · exact .cons_cons (.ahead rfl nofun) (.singleton _)
  | opened u records hs => exact ⟨_, visits_entered h rfl hs rfl rfl (.singleton _)⟩
  | reopened goal records hs => exact ⟨_, visits_entered h rfl hs rfl rfl (.singleton _)⟩
  | resolved demands goal plan records hs =>
    exact ⟨_, visits_entered h rfl hs rfl rfl (.singleton _)⟩
  | unsatisfiable demands goal problems records hs =>
    exact ⟨_, visits_entered h rfl hs rfl rfl (.singleton _)⟩
  | handedOver records hpart hs =>
    exact ⟨_, visits_entered h (Call.enters?_of_part? hpart) hs rfl rfl (.singleton _)⟩
  | added => exact ⟨[], visits_none rfl rfl rfl⟩
  | frozen => exact ⟨[], visits_none rfl rfl rfl⟩
  | cleared => exact ⟨[], visits_none rfl rfl rfl⟩
  | solved => exact ⟨[], visits_none rfl rfl rfl⟩
  | took => exact ⟨[], visits_none rfl rfl rfl⟩
  | nothingTaken => exact ⟨[], visits_none rfl rfl rfl⟩
  | startedOver _ hstart => cases hk.symm.trans hstart

theorem perform_of_not_allows (h : s.Staged) (hnot : ¬ s.Allows k) :
    ∃ t, k.wants? = some t ∧
      s.cycle.perform k = { cycle := s.cycle, result := .error (.transition s.cycle.state t) } := by
  cases hk : k.enters? with
  | some t =>
    rw [Allows, hk] at hnot
    have hs : s.cycle.canEnter t = false := Bool.eq_false_iff.mpr fun ht =>
      hnot ((canEnter_iff_leads h (Call.ne_failed_of_enters? hk)).mp ht)
    exact ⟨t, Call.wants?_of_enters? hk, s.cycle.perform_refused hk hs⟩
  | none =>
    rw [Allows, hk] at hnot
    obtain ⟨huses, hstate⟩ := Classical.not_imp.mp hnot
    have hgoal := h.goal_eq_none (Bool.eq_false_iff.mpr hstate)
    exact ⟨_, if_pos huses, s.cycle.perform_closed huses hgoal⟩

theorem cycle_perform_of_failed (h : s.Staged)
    (hstate : s.cycle.state = .failed) (hk : k.startsOver = false) :
    (s.cycle.perform k).cycle = s.cycle := by
  by_cases hallows : s.Allows k
  · have hnone : ∀ t, ¬ s.Leads .failed t := fun t ht => by
      cases ht with
      | ahead hnext => cases hnext
      | fail hne => exact hne rfl
    rw [Allows, hstate] at hallows
    cases k with
    | takePlan => simp [Cycle.perform, Cycle.takePlan, hstate]
    | abandon => cases hk
    | reset => cases hk
    | addRequest => cases hallows rfl
    | resetGoal => cases hallows rfl
    | resolveGoal => cases hallows rfl
    | _ => exact absurd hallows (hnone _)
  · obtain ⟨t, -, hturn⟩ := perform_of_not_allows h hallows
    rw [hturn]

/-- What each call keeps unless it fails, a session that does not start over keeps unless it
fails. -/
theorem run_unless_failed {P : Cycle → Prop} {ks : List Call} (h : s.Staged) (hstart : P s.cycle)
    (hks : ∀ k ∈ ks, k.startsOver = false)
    (hcall : ∀ part k, part ++ [k] <+: ks → (s.run part).Staged → P (s.run part).cycle →
      ((s.run part).call k).cycle.state = .failed ∨ P ((s.run part).call k).cycle) :
    (s.run ks).cycle.state = .failed ∨ P (s.run ks).cycle := by
  induction ks using List.reverseRecOn with
  | nil => exact .inr hstart
  | append_singleton part k ih =>
    have hpart := ih (fun k' hk' => hks k' (List.mem_append_left _ hk'))
      fun part' k' hfront => hcall part' k' (hfront.trans (List.prefix_append ..))
    rw [run_concat]
    rcases hpart with hfailed | hkept
    · left
      rw [call, cycle_perform_of_failed (h.run part) hfailed (hks k (by simp))]
      exact hfailed
    · exact hcall part k List.prefix_rfl (h.run part) hkept

/-- The states behind a session. -/
structure Traced (s : Session) : Prop where
  staged : s.Staged
  starts : s.cycle.history.head? = some .init
  ends : s.cycle.history.getLast? = some s.cycle.state
  chain : s.cycle.history.IsChain CycleState.Leads

theorem Traced.call (h : s.Traced) (k : Call) : (s.call k).Traced := by
  have hstaged := h.staged.call k
  cases hk : k.startsOver with
  | true =>
    have hover : (s.call k).cycle = s.cycle.reset := by
      cases k <;> first | rfl | cases hk
    exact ⟨hstaged, by rw [hover]; rfl, by rw [hover]; rfl, by rw [hover]; exact .singleton _⟩
  | false =>
    obtain ⟨visited, hvisits⟩ := exists_visits h.staged (Cycle.step_perform s.cycle) hk
    obtain ⟨rest, hrest⟩ : ∃ rest, s.cycle.history = .init :: rest :=
      List.head?_eq_some_iff.mp h.starts
    refine ⟨hstaged, ?_, ?_, ?_⟩
    · rw [Session.call, hvisits.history, hrest]
      rfl
    · rw [Session.call, hvisits.history, List.getLast?_append, h.ends, ← hvisits.ends,
        List.getLast?_cons]
      cases visited.getLast? <;> rfl
    · rw [Session.call, hvisits.history, List.isChain_append, h.ends]
      obtain ⟨hhead, htail⟩ := List.isChain_cons.mp hvisits.chain
      refine ⟨h.chain, htail.imp fun _ _ => Leads.arrow, ?_⟩
      rintro a ha b hb
      cases Option.mem_some.mp ha
      exact (hhead b hb).arrow

/-- A session goes along the diagram, whatever its calls are and whatever comes of them. -/
theorem follows_diagram (o : CycleOptions) (solver : Solver) (ks : List Call) :
    let s := (start o solver).run ks
    (s.cycle.history.head? = some .init ∧ s.cycle.history.getLast? = some s.cycle.state ∧
      s.cycle.history.IsChain CycleState.Leads) ∧
    ∀ k : Call,
      let turn := s.cycle.perform k
      (k.startsOver = true → turn.cycle.state = .init ∧ turn.cycle.history = [.init]) ∧
      (k.startsOver = false → ∃ visited,
        turn.cycle.history = s.cycle.history ++ visited ∧
        (s.cycle.state :: visited).IsChain s.Leads ∧
        (s.Allows k → k.enters?.toList <+: visited)) ∧
      (¬ s.Allows k → ∃ t, k.wants? = some t ∧
        turn = { cycle := s.cycle, result := .error (.transition s.cycle.state t) }) ∧
      (s.cycle.state = .failed → k.startsOver = false → turn.cycle = s.cycle) := by
  intro s
  have htraced : s.Traced := by
    refine run_keeps (P := Traced) ?_ fun _ k _ h => h.call k
    exact ⟨staged_start o solver, rfl, rfl, .singleton _⟩
  refine ⟨⟨htraced.starts, htraced.ends, htraced.chain⟩, fun k => ⟨?_, ?_, ?_, ?_⟩⟩
  · intro hk
    cases k <;> first | exact ⟨rfl, rfl⟩ | cases hk
  · intro hk
    obtain ⟨visited, hvisits⟩ := exists_visits htraced.staged (Cycle.step_perform s.cycle) hk
    exact ⟨visited, hvisits.history, hvisits.chain, hvisits.allowed⟩
  · exact perform_of_not_allows htraced.staged
  · exact fun hstate hk => cycle_perform_of_failed htraced.staged hstate hk

end Session

end Depsolve
