import Depsolve.Proofs.Cycle.Rules
import Depsolve.Proofs.Solver.Mirror.Alike
/-!
# Cycles of two generations

Two cycles may differ in the generations of their universes and, before a configuration was
loaded, in the configuration and the solver that they still have. A call that asks both for
the same has the same result on both and leaves them as like as they were.
-/
namespace Depsolve

theorem Option.none_or_some_of_rel {α β : Type} {R : α → β → Prop} {a : Option α} {b : Option β}
    (h : Option.Rel R a b) :
    a = none ∧ b = none ∨ ∃ x y, a = some x ∧ b = some y ∧ R x y := by
  cases h with
  | none => exact .inl ⟨rfl, rfl⟩
  | some hxy => exact .inr ⟨_, _, rfl, rfl, hxy⟩

/-- Executors that answer alike about one plan over universes of two generations. -/
structure Executor.Alike (x x' : Executor) : Prop where
  download : ∀ u v plan, u.Alike v → x'.download v plan = x.download u plan
  test : ∀ u v plan, u.Alike v → x'.test v plan = x.test u plan
  execute : ∀ u v plan, u.Alike v → x'.execute v plan = x.execute u plan

namespace Cycle

/-- Two calls that ask for the same, of hosts, sources and executors that answer alike. -/
inductive Call.Alike (o : CycleOptions) : Call → Call → Prop
  | same {k : Call} (h : k.part? = none) : Call.Alike o k k
  | loadConfig {host host' : Host} (h : configFor o host' = configFor o host) :
      Call.Alike o (.loadConfig host) (.loadConfig host')
  | downloadMetadata {sources sources' : List Source}
      (h : List.Forall₂ (fun s s' => ∀ cache, s'.fetch cache = s.fetch cache) sources sources') :
      Call.Alike o (.downloadMetadata sources) (.downloadMetadata sources')
  | downloadPackages {x x' : Executor} (h : x.Alike x') :
      Call.Alike o (.downloadPackages x) (.downloadPackages x')
  | testTransaction {x x' : Executor} (h : x.Alike x') :
      Call.Alike o (.testTransaction x) (.testTransaction x')
  | runTransaction {x x' : Executor} (h : x.Alike x') :
      Call.Alike o (.runTransaction x) (.runTransaction x')

/-- Two cycles of which the generations differ, and the configuration and the solver as long
as none was loaded. -/
structure Alike (loaded : Prop) (c c' : Cycle) : Prop where
  options : c'.options = c.options
  state : c'.state = c.state
  history : c'.history = c.history
  metadata : c'.metadata = c.metadata
  pool : Option.Rel Universe.Alike c.pool c'.pool
  goal : Option.Rel Goal.Alike c.goal c'.goal
  plan : c'.plan = c.plan
  problems : c'.problems = c.problems
  executed : c'.executed = c.executed
  settings : loaded → c'.config = c.config ∧ c'.solver = c.solver

theorem Alike.mono {loaded loaded' : Prop} {c c' : Cycle} (h : c.Alike loaded c')
    (hl : loaded' → loaded) : c.Alike loaded' c' :=
  { h with settings := fun hl' => h.settings (hl hl') }

end Cycle

/-- Two turns with the same result, from which like cycles go on. -/
structure Turn.Alike {α : Type} (loaded : Prop) (t t' : Turn α) : Prop where
  cycle : t.cycle.Alike loaded t'.cycle
  result : t'.result = t.result
  handed : Option.Rel (fun given given' => given.1.Alike given'.1 ∧ given'.2 = given.2)
    t.handed t'.handed

namespace Turn.Alike

variable {α β : Type} {loaded : Prop} {t t' : Turn α}

theorem map (h : t.Alike loaded t') (f : α → β) : (t.map f).Alike loaded (t'.map f) where
  cycle := h.cycle
  result := congrArg (Except.map f) h.result
  handed := h.handed

theorem after (h : t.Alike loaded t') (records records' : List LogRecord) :
    (t.after records).Alike loaded (t'.after records') := ⟨h.cycle, h.result, h.handed⟩

theorem mono (h : t.Alike loaded t') {loaded' : Prop} (hl : loaded' → loaded) :
    t.Alike loaded' t' := ⟨h.cycle.mono hl, h.result, h.handed⟩

end Turn.Alike

namespace Cycle

/-- From the first state on a cycle has loaded its configuration, unless it has failed. -/
def Midway (loaded : Prop) (c : Cycle) : Prop := c.state ≠ .init → c.state ≠ .failed → loaded

theorem Midway.of_canEnter {loaded : Prop} {c : Cycle} {s : CycleState} (h : c.Midway loaded)
    (hs : c.canEnter s = true) (hne : s ≠ .loadConfig) : loaded := by
  apply h
  · intro hstate
    simp [canEnter, hstate, CycleState.next?, hne.symm] at hs
  · intro hstate
    simp [canEnter, hstate, CycleState.next?] at hs

namespace Alike

variable {α : Type} {loaded : Prop} {c c' : Cycle} (h : c.Alike loaded c')

include h

theorem canEnter (s : CycleState) : c'.canEnter s = c.canEnter s := by
  simp only [Cycle.canEnter, hasGoodPlan, h.state, h.plan]

theorem enter (s : CycleState) : (c.enter s).Alike loaded (c'.enter s) :=
  { h with
    state := rfl
    history := congrArg (· ++ [s]) h.history }

theorem setMetadata (repositories : List Repository) :
    Alike loaded { c with metadata := repositories } { c' with metadata := repositories } :=
  { h with metadata := rfl }

theorem setPool {u v : Universe} (halike : u.Alike v) (generation generation' : Nat) :
    Alike loaded { c with pool := some u, generation }
      { c' with pool := some v, generation := generation' } :=
  { h with pool := .some halike }

theorem setGoal {g g' : Goal} (halike : g.Alike g') :
    Alike loaded { c with goal := some g } { c' with goal := some g' } :=
  { h with goal := .some halike }

theorem setPlan (plan : Option Plan) : Alike loaded { c with plan } { c' with plan } :=
  { h with plan := rfl }

theorem setOutcome (plan : Option Plan) (problems : ProblemSet) :
    Alike loaded { c with plan, problems } { c' with plan, problems } :=
  { h with plan := rfl, problems := rfl }

theorem setExecuted (executed : Bool) :
    Alike loaded { c with executed } { c' with executed } := { h with executed := rfl }

theorem refuse (e : ResolveError) :
    ({ cycle := c, result := .error e } : Turn α).Alike loaded { cycle := c', result := .error e } :=
  ⟨h, rfl, .none⟩

theorem succeed (a : α) : (c.succeed a).Alike loaded (c'.succeed a) := ⟨h, rfl, .none⟩

theorem fail (e : ResolveError) : (c.fail (α := α) e).Alike loaded (c'.fail e) where
  cycle :=
    { h with
      state := rfl
      history := congrArg (· ++ [CycleState.failed]) h.history
      metadata := rfl
      pool := .none
      goal := .none
      plan := rfl }
  result := rfl
  handed := .none

theorem entering {s : CycleState} {work work' : Cycle → Turn α}
    (hwork : c.canEnter s = true → (work (c.enter s)).Alike loaded (work' (c'.enter s))) :
    (c.entering s work).Alike loaded (c'.entering s work') := by
  rw [Cycle.entering, Cycle.entering, h.canEnter]
  split
  · next hs => exact (hwork hs).after _ _
  · rw [h.state]
    exact h.refuse _

/-! ### Each call -/

theorem loadConfig {host host' : Host}
    (hconfig : configFor c.options host' = configFor c.options host) :
    (c.loadConfig host).Alike loaded (c'.loadConfig host') := by
  refine h.entering fun _ => ?_
  have hsame : configFor (c'.enter .loadConfig).options host' =
      configFor (c.enter .loadConfig).options host := by
    rw [(h.enter .loadConfig).options]
    exact hconfig
  rw [hsame]
  cases configFor (c.enter .loadConfig).options host with
  | ok config => exact ⟨{ h.enter .loadConfig with settings := fun _ => ⟨rfl, rfl⟩ }, rfl, .none⟩
  | error e => exact (h.enter .loadConfig).fail _

omit h in
theorem fetchAll_congr (cache : CacheLevel) {sources sources' : List Source}
    (hsources : List.Forall₂ (fun s s' => ∀ cache, s'.fetch cache = s.fetch cache)
      sources sources') : fetchAll cache sources' = fetchAll cache sources := by
  induction hsources with
  | nil => rfl
  | cons hfetch _ ih => simp only [fetchAll, hfetch, ih]

theorem takePlan : c'.takePlan.1 = c.takePlan.1 ∧ c.takePlan.2.Alike loaded c'.takePlan.2 := by
  have hdone : (c'.state == .transaction && c'.executed) =
      (c.state == .transaction && c.executed) := by rw [h.state, h.executed]
  rw [Cycle.takePlan, Cycle.takePlan, hdone]
  split
  · exact ⟨h.plan, { h with plan := rfl }⟩
  · exact ⟨rfl, h⟩

theorem reset : c.reset.Alike loaded c'.reset where
  options := h.options
  state := rfl
  history := rfl
  metadata := rfl
  pool := .none
  goal := .none
  plan := rfl
  problems := rfl
  executed := rfl
  settings := h.settings

theorem addRequest (r : Request) (demands : Demands) :
    (c.addRequest r demands).Alike loaded (c'.addRequest r demands) := by
  rw [Cycle.addRequest, Cycle.addRequest]
  obtain ⟨hgoal, hgoal'⟩ | ⟨g, g', hgoal, hgoal', hlike⟩ := Option.none_or_some_of_rel h.goal
  · rw [hgoal, hgoal', h.state]
    exact h.refuse _
  · rw [hgoal, hgoal']
    dsimp only
    by_cases hfrozen : g.frozen = true
    · have hfrozen' : g'.frozen = true := hlike.frozen.trans hfrozen
      rw [Goal.add, Goal.add, if_pos hfrozen, if_pos hfrozen']
      exact h.refuse _
    · have hfrozen' : ¬ g'.frozen = true := hlike.frozen ▸ hfrozen
      rw [Goal.add, Goal.add, if_neg hfrozen, if_neg hfrozen']
      exact ((h.setGoal (hlike.add r demands)).succeed ()).after _ _

theorem resetGoal : c.resetGoal.Alike loaded c'.resetGoal := by
  rw [Cycle.resetGoal, Cycle.resetGoal]
  obtain ⟨hgoal, hgoal'⟩ | ⟨g, g', hgoal, hgoal', hlike⟩ := Option.none_or_some_of_rel h.goal
  · rw [hgoal, hgoal', h.state]
    exact h.refuse _
  · rw [hgoal, hgoal']
    exact (h.setGoal hlike.reset).succeed _

theorem resolveGoal (solver : Solver) (demands : Demands) :
    (c.resolveGoal solver demands).Alike loaded (c'.resolveGoal solver demands) := by
  rw [Cycle.resolveGoal, Cycle.resolveGoal]
  obtain ⟨hgoal, hgoal'⟩ | ⟨g, g', hgoal, hgoal', hlike⟩ := Option.none_or_some_of_rel h.goal
  · rw [hgoal, hgoal', h.state]
    exact h.refuse _
  · rw [hgoal, hgoal']
    dsimp only
    rw [hlike.result, Goal.resolve_goal, Goal.resolve_goal]
    exact ⟨h.setGoal hlike.freeze, rfl, .none⟩

theorem buildTransaction : c.buildTransaction.Alike loaded c'.buildTransaction := by
  refine h.entering fun _ => ?_
  have henter := h.enter .buildTransaction
  obtain ⟨hgoal, hgoal'⟩ | ⟨g, g', hgoal, hgoal', hlike⟩ := Option.none_or_some_of_rel henter.goal
  · obtain ⟨hpool, hpool'⟩ | ⟨u, v, hpool, hpool', halike⟩ :=
      Option.none_or_some_of_rel henter.pool
    · rw [hgoal, hgoal', hpool, hpool']
      exact henter.fail _
    · rw [hgoal, hgoal', hpool, hpool']
      exact ((henter.setPool halike _ _).setGoal (.start u v halike)).succeed ()
  · rw [hgoal, hgoal']
    exact ((henter.setGoal hlike.thaw).setPlan none).succeed ()

section Midway

variable (hm : c.Midway loaded)

include hm

theorem downloadMetadata {sources sources' : List Source}
    (hsources : List.Forall₂ (fun s s' => ∀ cache, s'.fetch cache = s.fetch cache)
      sources sources') :
    (c.downloadMetadata sources).Alike loaded (c'.downloadMetadata sources') := by
  refine h.entering fun hs => ?_
  have henter := h.enter .downloadMetadata
  obtain ⟨hconfig, -⟩ := henter.settings (hm.of_canEnter hs (by decide))
  have hfetch : fetchAll (c'.enter .downloadMetadata).config.settings.cacheOnly sources' =
      fetchAll (c.enter .downloadMetadata).config.settings.cacheOnly sources := by
    rw [hconfig, fetchAll_congr _ hsources]
  rw [hfetch]
  obtain ⟨records, e | repositories⟩ :=
    fetchAll (c.enter .downloadMetadata).config.settings.cacheOnly sources
  · exact (henter.fail _).after _ _
  · exact ((henter.setMetadata repositories).succeed ()).after _ _

theorem loadSack : c.loadSack.Alike loaded c'.loadSack := by
  refine h.entering fun hs => ?_
  have henter := h.enter .loadSack
  obtain ⟨hconfig, -⟩ := henter.settings (hm.of_canEnter hs (by decide))
  generalize c.enter .loadSack = d, c'.enter .loadSack = d' at henter hconfig ⊢
  have hempty := henter.setMetadata []
  dsimp only
  cases hbuild : Universe.build d.generation d.metadata d.config.settings.excludes
    d.config.settings.arch with
  | error e =>
    have hbuild' : Universe.build d'.generation d'.metadata d'.config.settings.excludes
        d'.config.settings.arch = .error e := by
      rw [hconfig, henter.metadata, Universe.build_error_iff d'.generation rfl]
      exact hbuild
    rw [hbuild']
    exact hempty.fail _
  | ok u =>
    obtain ⟨v, hv, halike⟩ := Universe.exists_build_alike d'.generation rfl hbuild
    have hbuild' : Universe.build d'.generation d'.metadata d'.config.settings.excludes
        d'.config.settings.arch = .ok v := by
      rw [hconfig, henter.metadata]
      exact hv
    rw [hbuild']
    have hloaded := hempty.setPool halike (d.generation + 1) (d'.generation + 1)
    exact (hloaded.entering fun _ => (hloaded.enter .sackReady).succeed ()).after _ _

theorem resolve (demands : Demands) :
    (c.resolve demands).Alike loaded (c'.resolve demands) := by
  refine h.entering fun hs => ?_
  have henter := h.enter .resolveTransaction
  obtain ⟨-, hsolver⟩ := henter.settings (hm.of_canEnter hs (by decide))
  obtain ⟨hgoal, hgoal'⟩ | ⟨g, g', hgoal, hgoal', hlike⟩ := Option.none_or_some_of_rel henter.goal
  · rw [hgoal, hgoal']
    exact henter.fail _
  · have hresult : (g'.resolve (c'.enter .resolveTransaction).solver demands).result =
        (g.resolve (c.enter .resolveTransaction).solver demands).result := by
      rw [hsolver, hlike.result]
    rw [hgoal, hgoal']
    dsimp only
    rw [hresult, Goal.resolve_goal, Goal.resolve_goal]
    have hfrozen := henter.setGoal hlike.freeze
    cases (g.resolve (c.enter .resolveTransaction).solver demands).result with
    | ok plan => exact (((hfrozen.setOutcome (some plan) []).succeed plan).after _ _).after _ _
    | error problems =>
      refine Turn.Alike.after ?_ _ _
      exact ⟨hfrozen.setOutcome (some (.failed problems)) problems, rfl, .none⟩

end Midway

theorem handOver {part part' : Universe → Plan → Except ResolveError Unit}
    {done done' : Cycle → Turn Unit}
    (hpart : ∀ u v plan, u.Alike v → part' v plan = part u plan)
    (hdone : (done c).Alike loaded (done' c')) :
    (c.handOver part done).Alike loaded (c'.handOver part' done') := by
  rw [Cycle.handOver, Cycle.handOver, h.plan]
  obtain ⟨hpool, hpool'⟩ | ⟨u, v, hpool, hpool', halike⟩ := Option.none_or_some_of_rel h.pool
  · rw [hpool, hpool']
    exact hdone
  · rw [hpool, hpool']
    cases c.plan with
    | none => exact hdone
    | some plan =>
      have hgiven : Option.Rel (fun given given' : Universe × Plan =>
          given.1.Alike given'.1 ∧ given'.2 = given.2) (some (u, plan)) (some (v, plan)) :=
        .some ⟨halike, rfl⟩
      dsimp only
      rw [hpart u v plan halike]
      cases part u plan with
      | ok => exact ⟨hdone.cycle, hdone.result, hgiven⟩
      | error e =>
        have hfailed : (c.fail e : Turn Unit).Alike loaded (c'.fail e) := h.fail e
        exact ⟨hfailed.cycle, rfl, hgiven⟩

theorem perform (hm : c.Midway loaded) {k k' : Call} (hk : Call.Alike c.options k k') :
    (c.perform k).Alike loaded (c'.perform k') := by
  cases hk with
  | loadConfig hconfig => exact (h.loadConfig hconfig).map _
  | downloadMetadata hsources => exact (h.downloadMetadata hm hsources).map _
  | downloadPackages hx =>
    refine Turn.Alike.map (h.entering fun _ => ?_) _
    exact (h.enter _).handOver hx.download ((h.enter _).succeed ())
  | testTransaction hx =>
    refine Turn.Alike.map (h.entering fun _ => ?_) _
    exact (h.enter _).handOver hx.test ((h.enter _).succeed ())
  | runTransaction hx =>
    refine Turn.Alike.map (h.entering fun _ => ?_) _
    have hdone := ((h.enter .transaction).setExecuted true).succeed ()
    exact (h.enter _).handOver hx.execute (hdone.after _ _)
  | same hpart =>
    cases k with
    | loadConfig host => exact (h.loadConfig rfl).map _
    | downloadMetadata sources =>
      have hsame : List.Forall₂ (fun s s' : Source => ∀ cache, s'.fetch cache = s.fetch cache)
          sources sources := List.forall₂_same.mpr fun _ _ _ => rfl
      exact (h.downloadMetadata hm hsame).map _
    | loadSack => exact (h.loadSack hm).map _
    | buildTransaction => exact h.buildTransaction.map _
    | addRequest r demands => exact (h.addRequest r demands).map _
    | resetGoal => exact h.resetGoal.map _
    | resolveGoal solver demands => exact (h.resolveGoal solver demands).map _
    | resolve demands => exact (h.resolve hm demands).map _
    | downloadPackages | testTransaction | runTransaction => cases hpart
    | takePlan =>
      obtain ⟨hplan, hcycle⟩ := h.takePlan
      exact ⟨hcycle, congrArg Except.ok hplan, .none⟩
    | abandon => exact ⟨h.reset, rfl, .none⟩
    | reset => exact ⟨h.reset, rfl, .none⟩

end Alike

end Cycle

end Depsolve
