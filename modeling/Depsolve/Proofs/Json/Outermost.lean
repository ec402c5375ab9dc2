import Depsolve.Proofs.Json.Stray
/-!
# The outermost value

A reader of objects is a reader of any value that stops as soon as the outermost value cannot be
an object. The two go through the same readings up to there, and behind that place the reader of
any value has strayed. So both read the same objects.
-/
namespace Depsolve.Json

namespace Reading

variable {r r' : Reading} {mode : Mode} {c : Char}

def strict (r : Reading) : Reading := { r with objectOnly := true }

theorem strict_refuse (bad : Bool) (fault : Fault) (offset : Nat) :
    (r.refuse bad fault offset).strict = r.strict.refuse bad fault offset := by
  unfold refuse
  split <;> rfl

/-! ### The same way until it stops -/

/-- What is known of the next or the complete value whatever the reader is for. -/
def Sound : Mode → Prop
  | .word _ v => ¬v.IsObject
  | .after v => v.KeysDistinct
  | _ => True

/-- A reader of any value and a reader of objects come to the same, or the latter has stopped
and the former has strayed. -/
inductive Agree : Step → Step → Prop
  | same {r : Reading} (hany : r.objectOnly = false) (hsound : Sound r.mode) :
    Agree (.ok r) (.ok r.strict)
  | fault (e : FaultAt) : Agree (.error e) (.error e)
  | stopped {x : Step} (h : Strays x) (e : FaultAt) : Agree x (.error e)

theorem agree_stop (fault : Fault) (offset : Nat) :
    Agree (r.stop fault offset) (r.strict.stop fault offset) :=
  .fault _

theorem agree_ite {p : Prop} [Decidable p] {x y x' y' : Step} (h : p → Agree x x')
    (h' : ¬p → Agree y y') : Agree (if p then x else y) (if p then x' else y') := by
  split
  · next hp => exact h hp
  · next hp => exact h' hp

theorem agree_take (hany : r.objectOnly = false) (hsound : Sound mode) :
    Agree (.ok (r.take c mode)) (.ok (r.strict.take c mode)) :=
  .same (r := r.take c mode) hany hsound

theorem agree_closed (hany : r.objectOnly = false) (c : Char) (stack : List OpenDraft) {v : Draft}
    (hv : v.KeysDistinct) : Agree (r.closed c stack v) (r.strict.closed c stack v) :=
  .same (r := { r.take c (.after v) with stack }) hany hv

/-- Only an object is no reason to stop when the outermost value is complete. -/
theorem agree_scalar (hany : r.objectOnly = false) {v : Draft} (hv : ¬v.IsObject) :
    Agree (r.scalar v) (r.strict.scalar v) := by
  have hscalar : r.scalar v = .ok { r with mode := .after v } := by simp [scalar, hany]
  -- inside a container the reader of objects does not mind scalars
  by_cases hempty : r.stack = []
  · have hstop : r.strict.scalar v = r.strict.stop (.notMap v.describe) r.offset := by
      simp [scalar, strict, hempty]
    rw [hscalar, hstop]
    exact .stopped (strays_ok (by simpa [hempty] using Strayed.done hv)) _
  · have hgo : r.strict.scalar v = .ok { r.strict with mode := .after v } := by
      simp [scalar, strict, hempty]
    rw [hscalar, hgo]
    exact .same (r := { r with mode := .after v }) hany (Draft.keysDistinct_of_not_isObject hv)

theorem strict_opened (container : OpenDraft) :
    (r.opened c container mode).strict = r.strict.opened c container mode := by
  simp only [opened, ← strict_refuse]
  rfl

theorem agree_opened (hany : r.objectOnly = false) (container : OpenDraft) (hsound : Sound mode) :
    Agree (.ok (r.opened c container mode)) (.ok (r.strict.opened c container mode)) := by
  rw [← strict_opened]
  exact .same (by simpa [opened, take] using hany) hsound

theorem agree_beginValue (hany : r.objectOnly = false) (c : Char) :
    Agree (r.beginValue c) (r.strict.beginValue c) := by
  unfold beginValue
  split
  · exact agree_take hany Draft.not_isObject_null
  · exact agree_take hany (Draft.not_isObject_bool true)
  · exact agree_take hany (Draft.not_isObject_bool false)
  · exact agree_take hany trivial
  · rw [hany, Bool.false_and, if_neg Bool.false_ne_true]
    split
    · next hempty =>
      have hstack : r.stack = [] := by simpa [strict] using hempty
      have hinside : InArray (r.opened '[' (.array []) (.value .openBracket)).stack := by
        simpa [opened, hstack] using InArray.bottom []
      exact .stopped (strays_ok (.inside hinside (by simp [opened, take]))) _
    · exact agree_opened hany _ trivial
  · exact agree_opened hany _ trivial
  · split
    · exact agree_take hany trivial
    · exact agree_stop _ _

theorem agree_stepAfter (hany : r.objectOnly = false) {v : Draft} (hv : v.KeysDistinct)
    (c : Char) : Agree (r.stepAfter v c) (r.strict.stepAfter v c) := by
  refine agree_ite (fun _ => agree_take hany hv) fun _ => ?_
  rw [show r.strict.stack = r.stack from rfl]
  split
  · exact agree_stop _ _
  · next items stack heq =>
    refine agree_ite (fun _ => .same (r := { r.take c (.value .comma) with
      stack := .array (v :: items) :: stack }) hany trivial) fun _ => ?_
    exact agree_ite (fun _ => agree_closed hany c stack
      (Draft.keysDistinct_of_not_isObject (Draft.not_isObject_array _))) fun _ => agree_stop _ _
  · next members k stack heq =>
    refine agree_ite (fun _ => .same (r := { r.take c (.key .comma) with
      stack := .object ((k, v) :: members) none :: stack }) hany trivial) fun _ => ?_
    exact agree_ite (fun _ => agree_closed hany c stack (Draft.keysDistinct_object _))
      fun _ => agree_stop _ _

theorem agree_stepValue (hany : r.objectOnly = false) (before : Before) (c : Char) :
    Agree (r.stepValue before c) (r.strict.stepValue before c) := by
  refine agree_ite (fun _ => agree_take hany trivial) fun _ => ?_
  refine agree_ite (fun _ => agree_stop _ _) fun _ => ?_
  refine agree_ite (fun _ => ?_) fun _ => agree_beginValue hany c
  exact agree_closed hany c r.stack.tail
    (Draft.keysDistinct_of_not_isObject (Draft.not_isObject_array []))

theorem agree_stepKey (hany : r.objectOnly = false) (before : Before) (c : Char) :
    Agree (r.stepKey before c) (r.strict.stepKey before c) := by
  refine agree_ite (fun _ => agree_take hany trivial) fun _ => ?_
  refine agree_ite (fun _ => agree_take hany trivial) fun _ => ?_
  refine agree_ite (fun _ => agree_stop _ _) fun _ => ?_
  refine agree_ite (fun _ => ?_) fun _ => agree_stop _ _
  exact agree_closed hany c r.stack.tail (Draft.keysDistinct_object [])

theorem agree_stringDone (hany : r.objectOnly = false) (isKey : Bool) (units : List StringUnit) :
    Agree (r.stringDone isKey units) (r.strict.stringDone isKey units) := by
  refine agree_ite (fun _ => ?_) fun _ =>
    agree_scalar (r := r.take '"' .colon) hany (Draft.not_isObject_string _)
  rw [show (r.strict.take '"' .colon).stack = (r.take '"' .colon).stack from rfl]
  split
  · next members _ stack heq =>
    exact .same (r := { r.take '"' .colon with
      stack := .object members ((joinUnits? units.reverse).map String.ofList) :: stack })
      hany trivial
  · exact agree_take hany trivial

theorem agree_stepString (hany : r.objectOnly = false) (isKey : Bool) (units : List StringUnit)
    (c : Char) : Agree (r.stepString isKey units c) (r.strict.stepString isKey units c) := by
  have hrefuse : ∀ bad offset, (r.refuse bad .endOfEscape offset).objectOnly = false := by
    simpa using hany
  unfold stepString
  rw [← strict_refuse]
  refine agree_ite (fun _ => agree_stringDone (hrefuse _ _) isKey units) fun _ => ?_
  refine agree_ite (fun _ => agree_take (hrefuse _ _) trivial) fun _ => ?_
  exact agree_ite (fun _ => agree_stop _ _) fun _ => agree_take (hrefuse _ _) trivial

theorem agree_stepEscape (hany : r.objectOnly = false) (isKey : Bool) (units : List StringUnit)
    (c : Char) : Agree (r.stepEscape isKey units c) (r.strict.stepEscape isKey units c) := by
  have hrefuse : ∀ bad offset, (r.refuse bad .endOfEscape offset).objectOnly = false := by
    simpa using hany
  unfold stepEscape
  rw [← strict_refuse]
  refine agree_ite (fun _ => agree_take (hrefuse _ _) trivial) fun _ => ?_
  split
  · exact agree_take (hrefuse _ _) trivial
  · exact agree_stop _ _

theorem agree_stepHex (hany : r.objectOnly = false) (isKey : Bool) (units : List StringUnit)
    (code : Option Nat) (bytes : Nat) (c : Char) :
    Agree (r.stepHex isKey units code bytes c) (r.strict.stepHex isKey units code bytes c) := by
  refine agree_ite (fun _ => agree_take hany trivial) fun _ => ?_
  split
  · exact agree_stop _ _
  · simp only [← strict_refuse]
    exact agree_take (by simpa using hany) trivial

theorem agree_numberDone (hany : r.objectOnly = false) (l : NumberLiteral) :
    Agree (r.numberDone l) (r.strict.numberDone l) := by
  simp only [numberDone, ← strict_refuse]
  exact agree_scalar (by simpa using hany) (Draft.not_isObject_number l)

theorem agree_bind {x x' : Step} {f : Reading → Step} (h : Agree x x')
    (hf : ∀ r, x = .ok r → r.objectOnly = false → Sound r.mode → Agree (f r) (f r.strict))
    (hstray : ∀ r, x = .ok r → Strayed r.stack r.mode → Strays (f r)) :
    Agree (x >>= f) (x' >>= f) := by
  cases h with
  | same hany hsound => exact hf _ rfl hany hsound
  | fault e => exact .fault e
  | stopped h e =>
    exact .stopped (strays_bind fun r hx => hstray r hx (h r hx)) e

theorem agree_stepNumber (hany : r.objectOnly = false) (l : NumberLiteral) (c : Char) :
    Agree (r.stepNumber l c) (r.strict.stepNumber l c) := by
  cases hnext : l.next? c with
  | some l' =>
    simp only [stepNumber, hnext, ← strict_refuse]
    exact agree_take (by simpa using hany) trivial
  | none =>
    cases hend : l.canEndBefore c with
    | false =>
      rw [stepNumber_eq_stop hnext hend, stepNumber_eq_stop hnext hend]
      exact agree_stop _ _
    | true =>
      rw [stepNumber_eq_bind hnext hend, stepNumber_eq_bind hnext hend]
      apply agree_bind (agree_numberDone hany l)
      · intro r' _ hany' _
        exact agree_stepAfter hany'
          (Draft.keysDistinct_of_not_isObject (Draft.not_isObject_number l)) c
      · intro r' hdone h
        rw [scalar_eq_ok hdone] at h ⊢
        exact strays_stepAfter h c

theorem agree_step (hany : r.objectOnly = false) (hsound : Sound r.mode) (c : Char) :
    Agree (r.step c) (r.strict.step c) := by
  unfold step
  rw [show r.strict.mode = r.mode from rfl]
  split
  · exact agree_stepValue hany _ c
  · exact agree_stepKey hany _ c
  · refine agree_ite (fun _ => agree_take hany trivial) fun _ => ?_
    exact agree_ite (fun _ => agree_take hany trivial) fun _ => agree_stop _ _
  · next heq => exact agree_stepAfter hany (by rwa [heq] at hsound) c
  · next heq =>
    exact agree_stepAfter hany (Draft.keysDistinct_of_not_isObject (by rwa [heq] at hsound)) c
  · next v heq =>
    refine agree_ite (fun _ => ?_) fun _ => agree_stop _ _
    exact agree_scalar (r := r.take c (.after v)) hany (by rwa [heq] at hsound)
  · next heq =>
    exact agree_ite (fun _ => agree_take hany (by rwa [heq] at hsound)) fun _ => agree_stop _ _
  · exact agree_stepNumber hany _ c
  · exact agree_stepString hany _ _ c
  · exact agree_stepEscape hany _ _ c
  · exact agree_stepHex hany _ _ _ _ c

theorem agree_foldlM (hany : r.objectOnly = false) (hsound : Sound r.mode) (cs : List Char) :
    Agree (cs.foldlM step r) (cs.foldlM step r.strict) := by
  induction cs generalizing r with
  | nil => exact .same hany hsound
  | cons c cs ih =>
    rw [List.foldlM_cons, List.foldlM_cons]
    exact agree_bind (agree_step hany hsound c) (fun r _ hany hsound => ih hany hsound)
      fun r _ h => strays_foldlM h cs

/-! ### The end of the text -/

/-- What is known of what was read when a reader of objects has come to it or not. -/
inductive AgreeEnd : Except FaultAt (Draft × Option FaultAt) →
    Except FaultAt (Draft × Option FaultAt) → Prop
  | same {d : Draft} (refusal : Option FaultAt) (h : d.KeysDistinct) :
    AgreeEnd (.ok (d, refusal)) (.ok (d, refusal))
  | fault (e : FaultAt) : AgreeEnd (.error e) (.error e)
  | stopped {x : Except FaultAt (Draft × Option FaultAt)} (e : FaultAt)
    (h : ∀ d refusal, x = .ok (d, refusal) → ¬d.IsObject) : AgreeEnd x (.error e)

theorem agreeEnd_finishAfter {v : Draft} (hv : v.KeysDistinct) :
    AgreeEnd (r.finishAfter v) (r.strict.finishAfter v) := by
  unfold finishAfter
  rw [show r.strict.stack = r.stack from rfl]
  split
  · exact .same _ hv
  · exact .fault _

theorem finishAfter_strayed {v d : Draft} {refusal : Option FaultAt}
    (h : Strayed r.stack (.after v)) (hend : r.finishAfter v = .ok (d, refusal)) :
    ¬d.IsObject := by
  unfold finishAfter at hend
  split at hend
  · next hempty =>
    rw [List.isEmpty_iff.mp hempty] at h
    obtain ⟨hv⟩ | ⟨⟨⟩⟩ := h
    cases hend
    exact hv
  · nomatch hend

theorem finish_eq_bind {l : NumberLiteral} (hmode : r.mode = .number l)
    (hend : l.stage.isEnd = true) :
    r.finish = r.numberDone l >>= fun r => r.finishAfter (.number l.value?) := by
  simp only [finish, hmode, hend, if_true]
  cases r.numberDone l <;> rfl

theorem finish_eq_stop {l : NumberLiteral} (hmode : r.mode = .number l)
    (hend : l.stage.isEnd = false) : r.finish = r.stop .endInValue r.offset := by
  simp only [finish, hmode, hend, Bool.false_eq_true, if_false]

theorem finish_strayed {d : Draft} {refusal : Option FaultAt} (h : Strayed r.stack r.mode)
    (hend : r.finish = .ok (d, refusal)) : ¬d.IsObject := by
  cases hmode : r.mode with
  | after v =>
    rw [hmode] at h
    simp only [finish, hmode] at hend
    exact finishAfter_strayed h hend
  | number l =>
    rw [hmode] at h
    have hstack : InArray r.stack := by
      generalize r.stack = stack at h
      cases h with
      | inside h => exact h
    cases hstage : l.stage.isEnd with
    | false =>
      rw [finish_eq_stop hmode hstage] at hend
      nomatch hend
    | true =>
      rw [finish_eq_bind hmode hstage] at hend
      cases hdone : r.numberDone l with
      | error e =>
        rw [hdone] at hend
        nomatch hend
      | ok r' =>
        rw [hdone, scalar_eq_ok hdone] at hend
        exact finishAfter_strayed (.inside (by simpa using hstack) nofun) hend
  | value before => cases before <;> simp [finish, hmode, stop] at hend
  | key before => cases before <;> simp [finish, hmode, stop] at hend
  | _ => simp [finish, hmode, stop] at hend

theorem agreeEnd_bind {x x' : Step} {f : Reading → Except FaultAt (Draft × Option FaultAt)}
    (h : Agree x x')
    (hf : ∀ r, x = .ok r → r.objectOnly = false → Sound r.mode → AgreeEnd (f r) (f r.strict))
    (hstray : ∀ r, x = .ok r → Strayed r.stack r.mode →
      ∀ d refusal, f r = .ok (d, refusal) → ¬d.IsObject) :
    AgreeEnd (x >>= f) (x' >>= f) := by
  cases h with
  | same hany hsound => exact hf _ rfl hany hsound
  | fault e => exact .fault e
  | stopped h e =>
    refine .stopped e ?_
    cases x with
    | error e => exact nofun
    | ok r => exact hstray r rfl (h r rfl)

theorem agreeEnd_finish (hany : r.objectOnly = false) (hsound : Sound r.mode) :
    AgreeEnd r.finish r.strict.finish := by
  cases hmode : r.mode with
  | after v =>
    rw [hmode] at hsound
    have hfinish (r : Reading) (h : r.mode = .after v) : r.finish = r.finishAfter v := by
      simp only [finish, h]
    rw [hfinish r hmode, hfinish r.strict hmode]
    exact agreeEnd_finishAfter hsound
  | number l =>
    cases hstage : l.stage.isEnd with
    | false =>
      rw [finish_eq_stop hmode hstage, finish_eq_stop (r := r.strict) hmode hstage]
      exact .fault _
    | true =>
      rw [finish_eq_bind hmode hstage, finish_eq_bind (r := r.strict) hmode hstage]
      apply agreeEnd_bind (agree_numberDone hany l)
      · exact fun _ _ _ _ => agreeEnd_finishAfter
          (Draft.keysDistinct_of_not_isObject (Draft.not_isObject_number l))
      · intro r' hdone h d refusal hend
        rw [scalar_eq_ok hdone] at h hend
        exact finishAfter_strayed h hend
  | value before =>
    cases before <;> simp only [finish, strict, hmode] <;> exact .fault _
  | key before =>
    cases before <;> simp only [finish, strict, hmode] <;> exact .fault _
  | _ =>
    simp only [finish, strict, hmode]
    exact .fault _

theorem scan_eq_bind (s : String) (objectOnly : Bool) :
    Draft.scan s objectOnly = s.toList.foldlM step { objectOnly } >>= finish := by
  unfold Draft.scan
  cases s.toList.foldlM step { objectOnly } <;> rfl

theorem agreeEnd_scan (s : String) : AgreeEnd (Draft.scan s) (Draft.scan s true) := by
  rw [scan_eq_bind, scan_eq_bind]
  apply agreeEnd_bind (agree_foldlM (r := {}) rfl trivial s.toList)
  · exact fun r _ hany hsound => agreeEnd_finish hany hsound
  · exact fun r _ h d refusal hend => finish_strayed h hend

end Reading

theorem ofScan_eq_ok_iff {s : String} {x : Except FaultAt (Draft × Option FaultAt)} {v : Json} :
    ofScan s x = .ok v ↔ ∃ d refusal, x = .ok (d, refusal) ∧ d.value? depthLimit = some v := by
  unfold ofScan
  split
  · simp
  · split <;> simp_all

theorem readMembers_eq_ok_iff {s : String} {members : List (String × Json)} :
    readMembers s = .ok members ↔ read s = .ok (.object members) := by
  have hstrict : readMembers s = .ok members ↔
      ofScan s (Draft.scan s true) = .ok (.object members) := by
    unfold readMembers
    split <;> simp_all
  have hagree := Reading.agreeEnd_scan s
  rw [hstrict, read, ofScan_eq_ok_iff, ofScan_eq_ok_iff]
  generalize Draft.scan s = x, Draft.scan s true = y at hagree ⊢
  cases hagree with
  | same => rfl
  | fault => rfl
  | stopped e h =>
    constructor
    · rintro ⟨d, refusal, ⟨⟩, -⟩
    · rintro ⟨d, refusal, hx, hvalue⟩
      exact absurd ⟨_, _, hvalue⟩ (h d refusal hx)

theorem nodup_keys_of_read {s : String} {members : List (String × Json)}
    (h : read s = .ok (.object members)) : (members.map Prod.fst).Nodup := by
  rw [read, ofScan_eq_ok_iff] at h
  obtain ⟨d, refusal, hscan, hvalue⟩ := h
  have hagree := Reading.agreeEnd_scan s
  generalize Draft.scan s true = y at hagree
  rw [hscan] at hagree
  cases hagree with
  | same _ h => exact h _ _ hvalue
  | stopped _ h => exact absurd ⟨_, _, hvalue⟩ (h _ _ rfl)

end Depsolve.Json
