import Depsolve.Proofs.Solver.Turn
import Depsolve.Proofs.Universe.Sample
/-!
# Jobs that fail might as well be left out

The checks before the search go over the list of jobs several times, and a job is
known to them by its place. Leaving out a job that passes them and erases nothing
shifts the places behind it and changes nothing else. As the run depends on the
trial alone, a job that fails leaves to the others what they find without it.
-/
namespace Depsolve

/-- The places of a list before one entry was taken out. -/
def placeBefore (n k : Nat) : Nat := if k < n then k else k + 1

theorem placeBefore_inj {n a b : Nat} : placeBefore n a = placeBefore n b ↔ a = b := by
  simp only [placeBefore]
  split <;> split <;> omega

theorem placeBefore_of_lt {n k : Nat} (h : k < n) : placeBefore n k = k := if_pos h

theorem placeBefore_of_le {n k : Nat} (h : n ≤ k) : placeBefore n k = k + 1 :=
  if_neg (Nat.not_lt.mpr h)

/-- The same state of the checks, but for the places behind the one that was left out. -/
structure Precheck.ShiftsTo (n : Nat) (c c' : Precheck) : Prop where
  problems : c.problems = c'.problems
  notes : c.notes = c'.notes
  skipped : ∀ k, placeBefore n k ∈ c.skipped ↔ k ∈ c'.skipped

namespace Precheck.ShiftsTo

variable {n k : Nat} {c c' : Precheck}

theorem refuse (h : ShiftsTo n c c') (p : Problem) :
    ShiftsTo n (c.refuse (placeBefore n k) p) (c'.refuse k p) where
  problems := by rw [Precheck.refuse, Precheck.refuse, h.problems]
  notes := h.notes
  skipped := by
    intro x
    simp only [Precheck.refuse, IdSet.mem_insert, h.skipped, placeBefore_inj]

theorem passOver (h : ShiftsTo n c c') (note : Note) :
    ShiftsTo n (c.passOver (placeBefore n k) note) (c'.passOver k note) where
  problems := h.problems
  notes := by rw [Precheck.passOver, Precheck.passOver, h.notes]
  skipped := by
    intro x
    simp only [Precheck.passOver, IdSet.mem_insert, h.skipped, placeBefore_inj]

theorem skip (h : ShiftsTo n c c') :
    ShiftsTo n { c with skipped := c.skipped.insert (placeBefore n k) }
      { c' with skipped := c'.skipped.insert k } where
  problems := h.problems
  notes := h.notes
  skipped := by
    intro x
    simp only [IdSet.mem_insert, h.skipped, placeBefore_inj]

theorem contains (h : ShiftsTo n c c') :
    c.skipped.contains (placeBefore n k) = c'.skipped.contains k :=
  Bool.eq_iff_iff.mpr (h.skipped k)

end Precheck.ShiftsTo

/-- The numbered jobs of a list, and those of the list without the job at place `n`. -/
inductive Omits (n : Nat) (job : Job) : List (Nat × Job) → List (Nat × Job) → Prop
  | nil : Omits n job [] []
  | same {k : Nat} {other : Job} {numbered numbered' : List (Nat × Job)}
      (hrest : Omits n job numbered numbered') :
      Omits n job ((placeBefore n k, other) :: numbered) ((k, other) :: numbered')
  | omitted {numbered numbered' : List (Nat × Job)} (hrest : Omits n job numbered numbered') :
      Omits n job ((n, job) :: numbered) numbered'

theorem omits_behind {n k : Nat} (job : Job) (hle : n ≤ k) (jobs : List Job) :
    Omits n job ((jobs.zipIdx (k + 1)).map fun p => (p.2, p.1))
      ((jobs.zipIdx k).map fun p => (p.2, p.1)) := by
  induction jobs generalizing k with
  | nil => exact .nil
  | cons other jobs ih =>
    have hplace : k + 1 = placeBefore n k := (placeBefore_of_le hle).symm
    rw [List.zipIdx_cons, List.zipIdx_cons, List.map_cons, List.map_cons]
    have hrest := ih (k := k + 1) (Nat.le_succ_of_le hle)
    rw [hplace] at hrest ⊢
    exact .same hrest

theorem omits_eraseIdx {jobs : List Job} {job : Job} {n : Nat} (start : Nat)
    (h : jobs[n]? = some job) :
    Omits (start + n) job ((jobs.zipIdx start).map fun p => (p.2, p.1))
      (((jobs.eraseIdx n).zipIdx start).map fun p => (p.2, p.1)) := by
  induction jobs generalizing start n with
  | nil => cases h
  | cons other jobs ih =>
    cases n with
    | zero =>
      cases h
      exact .omitted (omits_behind job (Nat.le_refl start) jobs)
    | succ n =>
      have hplace : start = placeBefore (start + (n + 1)) start :=
        (placeBefore_of_lt (by omega)).symm
      have hrest := ih (start + 1) (n := n) h
      rw [show start + 1 + n = start + (n + 1) by omega] at hrest
      have hsame : Omits (start + (n + 1)) job ((placeBefore (start + (n + 1)) start, other) :: _)
          ((start, other) :: _) := .same hrest
      rw [← hplace] at hsame
      rw [List.eraseIdx_cons_succ, List.zipIdx_cons, List.zipIdx_cons, List.map_cons,
        List.map_cons]
      exact hsame

namespace Search

variable {s : Search} {n : Nat} {job : Job} {c c' : Precheck}
  {numbered numbered' : List (Nat × Job)}

/-- A check that takes jobs out of the run and puts none back, and that leaves the state alone
unless it takes out the job at hand. -/
structure Decisive (check : Precheck → Nat → Job → Precheck) (n : Nat) (job : Job) : Prop where
  grows : ∀ c k other, ∀ i ∈ c.skipped, i ∈ (check c k other).skipped
  inert : ∀ c, n ∉ (check c n job).skipped → check c n job = c

theorem Decisive.foldl_grows {check : Precheck → Nat → Job → Precheck}
    (h : Decisive check n job) {i : Nat} (hi : i ∈ c.skipped) :
    i ∈ (numbered.foldl (fun c p => check c p.1 p.2) c).skipped := by
  induction numbered generalizing c with
  | nil => exact hi
  | cons p rest ih => exact ih (h.grows c p.1 p.2 i hi)

/-- Two runs of a check side by side, one with the job and one without. -/
theorem foldl_shiftsTo {check check' : Precheck → Nat → Job → Precheck}
    (hlists : Omits n job numbered numbered') (h : Decisive check n job)
    (hsame : ∀ c c' k other, c.ShiftsTo n c' →
      (check c (placeBefore n k) other).ShiftsTo n (check' c' k other))
    (hc : c.ShiftsTo n c')
    (hfree : n ∉ (numbered.foldl (fun c p => check c p.1 p.2) c).skipped) :
    (numbered.foldl (fun c p => check c p.1 p.2) c).ShiftsTo n
      (numbered'.foldl (fun c p => check' c p.1 p.2) c') := by
  induction hlists generalizing c c' with
  | nil => exact hc
  | same _ ih => exact ih (hsame c c' _ _ hc) hfree
  | omitted _ ih =>
    rw [List.foldl_cons] at hfree ⊢
    have hstep : check c n job = c := h.inert c fun hin => hfree (h.foldl_grows hin)
    rw [hstep] at hfree ⊢
    exact ih hc hfree

theorem checkMatch_decisive : Decisive s.checkMatch n job where
  grows := by
    intro c k other i hi
    simp only [checkMatch]
    split
    · exact hi
    · split
      · exact IdSet.mem_insert.mpr (.inl hi)
      · exact IdSet.mem_insert.mpr (.inl hi)
  inert := by
    intro c h
    simp only [checkMatch] at h ⊢
    split
    · rfl
    · rename_i hrefused
      rw [if_neg hrefused] at h
      refine absurd ?_ h
      split
      · exact IdSet.mem_insert.mpr (.inr rfl)
      · exact IdSet.mem_insert.mpr (.inr rfl)

theorem checkMatch_shiftsTo {k : Nat} (hc : c.ShiftsTo n c') :
    (s.checkMatch c (placeBefore n k) job).ShiftsTo n (s.checkMatch c' k job) := by
  simp only [checkMatch]
  split
  · exact hc
  · split
    · exact hc.passOver _
    · exact hc.refuse _

theorem checkAgainst_grows {wanted : Job} {place i : Nat} (hi : i ∈ c.skipped) :
    i ∈ (s.checkAgainst place wanted numbered c).skipped := by
  induction numbered generalizing c with
  | nil => exact hi
  | cons p rest ih =>
    simp only [checkAgainst]
    split
    · exact ih hi
    · split
      · exact ih hi
      · split
        · exact IdSet.mem_insert.mpr (.inl hi)
        · exact ih (IdSet.mem_insert.mpr (.inl (IdSet.mem_insert.mpr (.inl hi))))

theorem checkAgainst_inert {wanted : Job} {place : Nat}
    (h : place ∉ (s.checkAgainst place wanted numbered c).skipped) :
    s.checkAgainst place wanted numbered c = c := by
  induction numbered with
  | nil => rfl
  | cons p rest ih =>
    simp only [checkAgainst] at h ⊢
    split
    · rename_i hpass
      rw [if_pos hpass] at h
      exact ih h
    · rename_i hpass
      rw [if_neg hpass] at h
      split
      · rename_i hapart
        rw [if_pos hapart] at h
        exact ih h
      · rename_i hapart
        rw [if_neg hapart] at h
        refine absurd ?_ h
        split
        · exact IdSet.mem_insert.mpr (.inr rfl)
        · exact checkAgainst_grows (IdSet.mem_insert.mpr (.inl (IdSet.mem_insert.mpr (.inr rfl))))

theorem checkAgainst_shiftsTo {wanted : Job} {k : Nat} (hlists : Omits n job numbered numbered')
    (hkind : job.kind ≠ .erase) (hc : c.ShiftsTo n c') :
    (s.checkAgainst (placeBefore n k) wanted numbered c).ShiftsTo n
      (s.checkAgainst k wanted numbered' c') := by
  induction hlists generalizing c c' with
  | nil => exact hc
  | same _ ih =>
    simp only [checkAgainst, hc.contains]
    split
    · exact ih hc
    · split
      · exact ih hc
      · split
        · exact hc.passOver _
        · exact ih (hc.refuse _).skip
  | omitted _ ih =>
    have hpass : (job.kind != .erase || c.skipped.contains n) = true := by simp [hkind]
    rw [checkAgainst, if_pos hpass]
    exact ih hc

theorem checkContradictions_decisive : Decisive (s.checkContradictions numbered) n job where
  grows := by
    intro c k other i hi
    rw [checkContradictions]
    split
    · exact hi
    · exact checkAgainst_grows hi
  inert := by
    intro c h
    rw [checkContradictions] at h ⊢
    split
    · rfl
    · rename_i hcompared
      rw [if_neg hcompared] at h
      exact checkAgainst_inert h

theorem checkContradictions_shiftsTo {wanted : Job} {k : Nat}
    (hlists : Omits n job numbered numbered') (hkind : job.kind ≠ .erase)
    (hc : c.ShiftsTo n c') :
    (s.checkContradictions numbered c (placeBefore n k) wanted).ShiftsTo n
      (s.checkContradictions numbered' c' k wanted) := by
  rw [checkContradictions, checkContradictions, hc.contains]
  split
  · exact hc
  · exact checkAgainst_shiftsTo hlists hkind hc

theorem checkGuarded_decisive (hkind : job.kind ≠ .erase) : Decisive s.checkGuarded n job where
  grows := by
    intro c k other i hi
    simp only [checkGuarded]
    split
    · exact hi
    · exact IdSet.mem_insert.mpr (.inl hi)
  inert := by
    intro c _
    simp only [checkGuarded]
    rw [if_pos (by simp [hkind])]

theorem checkGuarded_shiftsTo {k : Nat} (hc : c.ShiftsTo n c') :
    (s.checkGuarded c (placeBefore n k) job).ShiftsTo n (s.checkGuarded c' k job) := by
  simp only [checkGuarded, hc.contains]
  split
  · exact hc
  · exact hc.refuse _

theorem precheck_eraseIdx {jobs : List Job} (hplace : jobs[n]? = some job)
    (hkind : job.kind ≠ .erase) (hpasses : n ∉ (s.precheck jobs).skipped) :
    (s.precheck jobs).ShiftsTo n (s.precheck (jobs.eraseIdx n)) := by
  let numbered := jobs.zipIdx.map fun p => (p.2, p.1)
  let matched := numbered.foldl (fun c p => s.checkMatch c p.1 p.2) {}
  let compared := numbered.foldl (fun c p => s.checkContradictions numbered c p.1 p.2) matched
  have hmatch : Decisive s.checkMatch n job := checkMatch_decisive
  have hcontradictions : Decisive (s.checkContradictions numbered) n job :=
    checkContradictions_decisive
  have hguarded : Decisive s.checkGuarded n job := checkGuarded_decisive hkind
  -- a job that passes the last check has passed those before it
  have hcompared : n ∉ compared.skipped := fun hin => hpasses (hguarded.foldl_grows hin)
  have hmatched : n ∉ matched.skipped := fun hin => hcompared (hcontradictions.foldl_grows hin)
  have hstart : Precheck.ShiftsTo n {} {} :=
    ⟨rfl, rfl, fun k => iff_of_false (IdSet.not_mem_empty _) (IdSet.not_mem_empty k)⟩
  have hlists : Omits n job numbered ((jobs.eraseIdx n).zipIdx.map fun p => (p.2, p.1)) := by
    have h := omits_eraseIdx 0 hplace
    rwa [Nat.zero_add] at h
  have hfirst := foldl_shiftsTo hlists hmatch (fun c c' k other => checkMatch_shiftsTo) hstart
    hmatched
  have hsecond := foldl_shiftsTo hlists hcontradictions
    (fun c c' k other => checkContradictions_shiftsTo hlists hkind) hfirst hcompared
  exact foldl_shiftsTo hlists hguarded (fun c c' k other => checkGuarded_shiftsTo) hsecond hpasses

theorem runnableFrom_shift (start d : Nat) {jobs : List Job} {skipped skipped' : IdSet}
    (h : ∀ k, start ≤ k → k < start + jobs.length → (k + d ∈ skipped ↔ k ∈ skipped')) :
    runnableFrom (start + d) jobs skipped = runnableFrom start jobs skipped' := by
  induction jobs generalizing start with
  | nil => rfl
  | cons job jobs ih =>
    have hhead : skipped.contains (start + d) = skipped'.contains start :=
      Bool.eq_iff_iff.mpr (h start (Nat.le_refl _) (by rw [List.length_cons]; omega))
    have htail := ih (start + 1) fun k hle hlt =>
      h k (by omega) (by rw [List.length_cons]; omega)
    rw [Nat.add_right_comm] at htail
    simp only [runnableFrom] at htail
    simp only [runnableFrom, List.zipIdx_cons, List.filter_cons, hhead]
    split
    · rw [List.map_cons, List.map_cons, htail]
    · exact htail

end Search

namespace Solver

variable {solver : Solver} {u : Universe} {jobs : List Job} {call : Demands} {n k : Nat}
  {job : Job} {e : Failure}

theorem HasTurn.search_eraseIdx (h : solver.HasTurn u jobs n job) :
    solver.search u (jobs.eraseIdx n) = solver.search u jobs := by
  refine search_congr ?_
  obtain ⟨hjobs, -⟩ := h.jobs_eq
  rw [List.eraseIdx_eq_take_drop_succ, congrArg (solver.guardedPackages u) hjobs]
  simp only [guardedPackages_eq, List.flatMap_append, List.flatMap_cons, guardsOf_eq_nil h.kind,
    List.nil_append]

theorem HasTurn.mem_skipped (h : solver.HasTurn u jobs n job) (hkind : job.kind ≠ .erase)
    (i : Nat) :
    placeBefore n i ∈ solver.skipped u jobs ↔ i ∈ solver.skipped u (jobs.eraseIdx n) := by
  have hshift := Search.precheck_eraseIdx h.place hkind h.passes
  rw [skipped, skipped, h.search_eraseIdx]
  exact hshift.skipped i

theorem HasTurn.take_eraseIdx (h : solver.HasTurn u jobs n job) (hle : n ≤ k) :
    jobs.take (k + 1) = jobs.take n ++ job :: (jobs.drop (n + 1)).take (k - n) ∧
      (jobs.eraseIdx n).take k = jobs.take n ++ (jobs.drop (n + 1)).take (k - n) := by
  obtain ⟨hjobs, hlength⟩ := h.jobs_eq
  constructor
  · have htake := congrArg (List.take (k + 1)) hjobs
    have hfront : (jobs.take n).take (k + 1) = jobs.take n := List.take_of_length_le (by omega)
    rw [List.take_append, hlength, hfront, show k + 1 - n = k - n + 1 by omega,
      List.take_succ_cons] at htake
    exact htake
  · have hfront : (jobs.take n).take k = jobs.take n := List.take_of_length_le (by omega)
    rw [List.eraseIdx_eq_take_drop_succ, List.take_append, hlength, hfront]

theorem HasTurn.runnable_front (h : solver.HasTurn u jobs n job) (hkind : job.kind ≠ .erase) :
    Search.runnable (jobs.take n) (solver.skipped u (jobs.eraseIdx n)) =
      Search.runnable (jobs.take n) (solver.skipped u jobs) := by
  obtain ⟨-, hlength⟩ := h.jobs_eq
  symm
  refine Search.runnableFrom_shift 0 0 fun i _ hlt => ?_
  rw [← h.mem_skipped hkind i, placeBefore_of_lt (by omega), Nat.add_zero]

theorem HasTurn.runnable_eraseIdx (h : solver.HasTurn u jobs n job) (hkind : job.kind ≠ .erase)
    (hle : n ≤ k) : ∃ rest,
      Search.runnable (jobs.take (k + 1)) (solver.skipped u jobs) =
        Search.runnable (jobs.take n) (solver.skipped u jobs) ++ job :: rest ∧
      Search.runnable ((jobs.eraseIdx n).take k) (solver.skipped u (jobs.eraseIdx n)) =
        Search.runnable (jobs.take n) (solver.skipped u jobs) ++ rest := by
  let rest := (jobs.drop (n + 1)).take (k - n)
  obtain ⟨-, hlength⟩ := h.jobs_eq
  obtain ⟨hwith, hwithout⟩ := h.take_eraseIdx hle
  have hback : Search.runnableFrom (n + 1) rest (solver.skipped u jobs) =
      Search.runnableFrom n rest (solver.skipped u (jobs.eraseIdx n)) := by
    refine Search.runnableFrom_shift n 1 fun i hge _ => ?_
    rw [← h.mem_skipped hkind i, placeBefore_of_le hge]
  refine ⟨Search.runnableFrom (n + 1) rest (solver.skipped u jobs), ?_, ?_⟩
  · have hsplit := Search.runnableFrom_append 0 (jobs.take n) (job :: rest) (solver.skipped u jobs)
    rw [Nat.zero_add, hlength, Search.runnableFrom_cons h.kind h.passes] at hsplit
    rw [hwith]
    exact hsplit
  · have hsplit := Search.runnableFrom_append 0 (jobs.take n) rest
      (solver.skipped u (jobs.eraseIdx n))
    rw [Nat.zero_add, hlength, ← hback] at hsplit
    rw [hwithout, ← h.runnable_front hkind]
    exact hsplit

theorem HasTurn.problemsAt_eraseIdx (h : solver.HasTurn u jobs n job) (hkind : job.kind ≠ .erase) :
    solver.problemsAt u (jobs.eraseIdx n) call n = solver.problemsAt u jobs call n := by
  have hshift := Search.precheck_eraseIdx h.place hkind h.passes
  have hfirst : (jobs.eraseIdx n).take n = jobs.take n := by
    have htake := (h.take_eraseIdx (Nat.le_refl n)).2
    rwa [Nat.sub_self, List.take_zero, List.append_nil] at htake
  rw [problemsAt, problemsAt, hfirst, h.runnable_front hkind, h.search_eraseIdx, hshift.problems]

/-- After a job that failed the run is where it is without the job, and its problems are those
found without it, with that of the job in between if there is one. -/
theorem HasTurn.run_eraseIdx (h : solver.HasTurn u jobs n job) (hkind : job.kind ≠ .erase)
    (hfails : ((solver.search u jobs).turn call (solver.trialAt u jobs call n) job).result =
      .error e) (hle : n ≤ k) :
    solver.trialAt u jobs call (k + 1) = solver.trialAt u (jobs.eraseIdx n) call k ∧
    ∃ later, solver.problemsAt u (jobs.eraseIdx n) call k =
        solver.problemsAt u jobs call n ++ later ∧
      solver.problemsAt u jobs call (k + 1) = solver.problemsAt u jobs call n ++
        ((solver.search u jobs).faults call (solver.trialAt u jobs call n) job ++ later) := by
  obtain ⟨rest, hwith, hwithout⟩ := h.runnable_eraseIdx hkind hle
  have hshift := Search.precheck_eraseIdx h.place hkind h.passes
  have hafter := Search.after_of_error hfails
  constructor
  · simp only [trialAt] at hafter ⊢
    rw [hwith, hwithout, h.search_eraseIdx, List.foldl_append, List.foldl_append, List.foldl_cons,
      hafter]
  · refine ⟨(solver.search u jobs).faultsOf call (solver.trialAt u jobs call n) rest, ?_, ?_⟩
    · simp only [problemsAt, trialAt]
      rw [hwithout, h.search_eraseIdx, ← hshift.problems, Search.faultsOf_append,
        List.append_assoc]
    · simp only [problemsAt, trialAt] at hafter ⊢
      rw [hwith, Search.faultsOf_append, Search.faultsOf, hafter, List.append_assoc]

/-- A job that passes the checks, erases nothing and fails might as well be left out: each later
job has its turn in the same trial, an optional job whose budget lasts changes nothing, and any
other adds its one problem behind those that the jobs before it and the checks have. -/
theorem solve_eraseIdx (h : solver.HasTurn u jobs n job) (hkind : job.kind ≠ .erase)
    (hfails : ((solver.search u jobs).turn call (solver.trialAt u jobs call n) job).result =
      .error e) :
    (∀ k, n ≤ k → solver.trialAt u jobs call (k + 1) =
      solver.trialAt u (jobs.eraseIdx n) call k) ∧
    (job.optional = true ∧ e ≠ .stepLimit →
      (solver.solve u jobs call).outcome = (solver.solve u (jobs.eraseIdx n) call).outcome) ∧
    (¬ (job.optional = true ∧ e ≠ .stepLimit) → ∃ later,
      (solver.solve u (jobs.eraseIdx n) call).problems =
        solver.problemsAt u (jobs.eraseIdx n) call n ++ later ∧
      (solver.solve u jobs call).outcome = .error (solver.problemsAt u (jobs.eraseIdx n) call n ++
        e.problem u job solver.maxSteps :: later)) := by
  have hlt : n < jobs.length := (List.getElem?_eq_some_iff.mp h.place).1
  have hlength : (jobs.eraseIdx n).length + 1 = jobs.length := by
    rw [List.length_eraseIdx_of_lt hlt]
    omega
  obtain ⟨htrial, later, hwithout, hwith⟩ :=
    h.run_eraseIdx hkind hfails (k := (jobs.eraseIdx n).length) (by omega)
  rw [hlength] at htrial hwith
  rw [Search.faults_of_error hfails] at hwith
  refine ⟨fun k hle => (h.run_eraseIdx hkind hfails hle).1, fun hpassed => ?_, fun hcounts => ?_⟩
  · rw [if_pos hpassed, List.nil_append, ← hwithout] at hwith
    rw [solve_outcome, solve_outcome, hwith, htrial, h.search_eraseIdx]
  · rw [if_neg hcounts, List.singleton_append] at hwith
    refine ⟨later, ?_, ?_⟩
    · rw [solve_problems, hwithout, h.problemsAt_eraseIdx hkind]
    · rw [solve_outcome, hwith, if_neg (by simp), h.problemsAt_eraseIdx hkind]
      rfl

/-- Two packages with newer builds, one of which cannot come in, and an extension that needs the
older build of the other. -/
def appAndTool : Universe :=
  .sample
    [.noarch "app" "1", .noarch "tool" "1"]
    [.noarch "app" "2", .noarch "tool" "2" [("requires", "ghost")],
      .noarch "extension" "1" [("requires", "app = 1")]]
    (by decide +kernel)

def upgradeBest (optional : Bool) : Job :=
  { kind := .upgradeAll, spec := "*", target := .all, demands := { best := true }, optional }

def wantExtension : Job :=
  { kind := .install, spec := "extension", target := .packages (.ofIds 1 5 [4]) }

/-- The upgrade has moved the application when it fails at the tool. Nothing of that is left when
the extension has its turn. -/
theorem upgradeBest_leaves_no_trace :
    (∀ optional, (Solver.mk [] [] 100 none).HasTurn appAndTool
        [upgradeBest optional, wantExtension] 0 (upgradeBest optional) ∧
      (((Solver.mk [] [] 100 none).search appAndTool [upgradeBest optional, wantExtension]).turn {}
        ((Solver.mk [] [] 100 none).trialAt appAndTool [upgradeBest optional, wantExtension] {} 0)
        (upgradeBest optional)).result = .error (.missing 3 ⟨"ghost", none⟩ false)) ∧
    ((Solver.mk [] [] 100 none).solve appAndTool [upgradeBest true, wantExtension] {}).outcome =
      ((Solver.mk [] [] 100 none).solve appAndTool [wantExtension] {}).outcome ∧
    ((Solver.mk [] [] 100 none).solve appAndTool [wantExtension] {}).problems = [] ∧
    ((Solver.mk [] [] 100 none).solve appAndTool [upgradeBest false, wantExtension] {}).outcome =
      .error [Failure.problem appAndTool (upgradeBest false) 100
        (.missing 3 ⟨"ghost", none⟩ false)] := by
  have hturn : ∀ optional, (Solver.mk [] [] 100 none).HasTurn appAndTool
      [upgradeBest optional, wantExtension] 0 (upgradeBest optional) := by
    intro optional
    refine ⟨rfl, by simp [upgradeBest], ?_⟩
    cases optional <;> decide +kernel
  have hfails : ∀ optional,
      (((Solver.mk [] [] 100 none).search appAndTool [upgradeBest optional, wantExtension]).turn {}
        ((Solver.mk [] [] 100 none).trialAt appAndTool [upgradeBest optional, wantExtension] {} 0)
        (upgradeBest optional)).result = .error (.missing 3 ⟨"ghost", none⟩ false) := by
    intro optional
    refine Attempt.result_eq_error ?_
    cases optional <;> decide +kernel
  have halone : ((Solver.mk [] [] 100 none).solve appAndTool [wantExtension] {}).problems = [] := by
    decide +kernel
  have hpassed := (solve_eraseIdx (hturn true) (by simp [upgradeBest]) (hfails true)).2.1
    ⟨rfl, by decide⟩
  obtain ⟨later, hwithout, hwith⟩ :=
    (solve_eraseIdx (hturn false) (by simp [upgradeBest]) (hfails false)).2.2
      (by simp [upgradeBest])
  have hnone := List.append_eq_nil_iff.mp (hwithout.symm.trans halone)
  rw [hnone.1, hnone.2] at hwith
  exact ⟨fun optional => ⟨hturn optional, hfails optional⟩, hpassed, halone, hwith⟩

end Solver

end Depsolve
