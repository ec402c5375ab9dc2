import Depsolve.Json.Reader
import Depsolve.Proofs.Association
/-!
# No way back to an object

As soon as the outermost value is a scalar or a list, whatever text comes next leaves it no object.
Values of drafts are told apart by whether they are objects at all, and an object that has been
read has each key once.
-/
namespace Depsolve.Json

namespace Draft

def IsObject (d : Draft) : Prop := ∃ depth members, d.value? depth = some (.object members)

/-- If the value is an object, it has each key once. -/
def KeysDistinct (d : Draft) : Prop :=
  ∀ depth members, d.value? depth = some (.object members) → (members.map Prod.fst).Nodup

theorem not_isObject_null : ¬null.IsObject := by simp [IsObject, value?]

theorem not_isObject_bool (b : Bool) : ¬(bool b).IsObject := by simp [IsObject, value?]

theorem not_isObject_string (s : Option String) : ¬(string s).IsObject := by
  simp [IsObject, value?]

theorem not_isObject_array (items : List Draft) : ¬(array items).IsObject := by
  simp [IsObject, value?]

theorem not_isObject_number (l : NumberLiteral) : ¬(number l.value?).IsObject := by
  rintro ⟨depth, members, h⟩
  rw [value?, NumberLiteral.value?] at h
  split at h
  split at h
  · split at h
    · nomatch h
    · split at h <;> nomatch h
  · simp at h

theorem keysDistinct_of_not_isObject {d : Draft} (h : ¬d.IsObject) : d.KeysDistinct :=
  fun depth members hvalue => absurd ⟨depth, members, hvalue⟩ h

theorem keysDistinct_object (members : List (Option String × Draft)) :
    (object members).KeysDistinct := by
  intro depth ms h
  rw [value?] at h
  split at h
  · nomatch h
  · obtain ⟨pairs, -, heq⟩ := Option.map_eq_some_iff.mp h
    rw [← Json.object.inj heq]
    exact Association.nodup_keys_ofList pairs

end Draft

/-- The outermost open container is a list. -/
inductive InArray : List OpenDraft → Prop
  | bottom (items : List Draft) : InArray [.array items]
  | above {stack : List OpenDraft} (container : OpenDraft) (h : InArray stack) :
    InArray (container :: stack)

/-- The outermost value is or will be no object. -/
inductive Strayed : List OpenDraft → Mode → Prop
  | done {v : Draft} (hv : ¬v.IsObject) : Strayed [] (.after v)
  | inside {stack : List OpenDraft} {mode : Mode} (h : InArray stack)
    (hmode : ∀ before, mode ≠ .key before) : Strayed stack mode
  | key {stack : List OpenDraft} (members : List (Option String × Draft)) (k : Option String)
    (before : Before) (h : InArray stack) : Strayed (.object members k :: stack) (.key before)

variable {stack : List OpenDraft} {mode : Mode} {c : Char}

theorem InArray.replace {items : List Draft} (h : InArray (.array items :: stack))
    (items' : List Draft) : InArray (.array items' :: stack) := by
  cases h with
  | bottom => exact .bottom items'
  | above _ h => exact .above _ h

theorem InArray.of_object {members : List (Option String × Draft)} {k : Option String}
    (h : InArray (.object members k :: stack)) : InArray stack := by
  cases h with
  | above _ h => exact h

theorem InArray.closed (h : InArray stack) (items : List Draft) :
    Strayed stack.tail (.after (.array items)) := by
  cases h with
  | bottom => exact .done (Draft.not_isObject_array items)
  | above _ h => exact .inside h nofun

namespace Reading

variable {r r' : Reading} {x : Step}

@[simp] theorem refuse_stack (bad : Bool) (fault : Fault) (offset : Nat) :
    (r.refuse bad fault offset).stack = r.stack := by
  unfold refuse
  split <;> rfl

@[simp] theorem refuse_mode (bad : Bool) (fault : Fault) (offset : Nat) :
    (r.refuse bad fault offset).mode = r.mode := by
  unfold refuse
  split <;> rfl

@[simp] theorem refuse_objectOnly (bad : Bool) (fault : Fault) (offset : Nat) :
    (r.refuse bad fault offset).objectOnly = r.objectOnly := by
  unfold refuse
  split <;> rfl

/-- Wherever a step leads to, the outermost value is no object. -/
def Strays (x : Step) : Prop := ∀ r, x = .ok r → Strayed r.stack r.mode

theorem strays_ok (h : Strayed r.stack r.mode) : Strays (.ok r) := by
  rintro _ ⟨⟩
  exact h

theorem strays_error (e : FaultAt) : Strays (.error e) := by
  rintro _ ⟨⟩

theorem strays_stop (fault : Fault) (offset : Nat) : Strays (r.stop fault offset) :=
  strays_error _

theorem strays_ite {p : Prop} [Decidable p] {x y : Step} (hx : p → Strays x) (hy : ¬p → Strays y) :
    Strays (if p then x else y) := by
  split
  · next h => exact hx h
  · next h => exact hy h

theorem strays_take (h : InArray r.stack) (hmode : ∀ before, mode ≠ .key before) :
    Strays (.ok (r.take c mode)) :=
  strays_ok (.inside h hmode)

theorem scalar_eq_ok {v : Draft} (h : r.scalar v = .ok r') : r' = { r with mode := .after v } := by
  unfold scalar at h
  split at h
  · nomatch h
  · exact (Except.ok.inj h).symm

theorem strays_scalar (h : InArray r.stack) (v : Draft) : Strays (r.scalar v) :=
  strays_ite (fun _ => strays_stop _ _) fun _ => strays_ok (.inside h nofun)

theorem strays_stepAfter {v : Draft} (h : Strayed r.stack (.after v)) (c : Char) :
    Strays (r.stepAfter v c) := by
  refine strays_ite (fun _ => strays_ok h) fun _ => ?_
  split
  · exact strays_stop _ _
  · next items stack heq =>
    rw [heq] at h
    obtain ⟨h, -⟩ | ⟨h, -⟩ := h
    refine strays_ite (fun _ => strays_ok (.inside (h.replace _) nofun)) fun _ => ?_
    exact strays_ite (fun _ => strays_ok (h.closed _)) fun _ => strays_stop _ _
  · next members k stack heq =>
    rw [heq] at h
    obtain ⟨h, -⟩ | ⟨h, -⟩ := h
    refine strays_ite (fun _ => strays_ok (.key _ _ _ h.of_object)) fun _ => ?_
    exact strays_ite (fun _ => strays_ok (.inside h.of_object nofun)) fun _ => strays_stop _ _

theorem strays_beginValue (h : InArray r.stack) (c : Char) : Strays (r.beginValue c) := by
  unfold beginValue
  split
  · exact strays_take h nofun
  · exact strays_take h nofun
  · exact strays_take h nofun
  · exact strays_take h nofun
  · exact strays_ite (fun _ => strays_stop _ _) fun _ => strays_ok (.inside (by
      simpa [opened] using h.above _) nofun)
  · exact strays_ok (by simpa [opened, take] using Strayed.key _ _ _ h)
  · split
    · exact strays_take h nofun
    · exact strays_stop _ _

theorem strays_stepValue (h : InArray r.stack) (before : Before) (c : Char) :
    Strays (r.stepValue before c) := by
  refine strays_ite (fun _ => strays_take h nofun) fun _ => ?_
  refine strays_ite (fun _ => strays_stop _ _) fun _ => ?_
  exact strays_ite (fun _ => strays_ok (h.closed [])) fun _ => strays_beginValue h c

theorem strays_stepKey (members : List (Option String × Draft)) (k : Option String)
    (h : InArray stack) (hstack : r.stack = .object members k :: stack) (before : Before)
    (c : Char) : Strays (r.stepKey before c) := by
  have hobject : InArray r.stack := hstack ▸ h.above _
  have hclosed : InArray r.stack.tail := hstack ▸ h
  refine strays_ite (fun _ => strays_ok ?_) fun _ => ?_
  · simpa [take, hstack] using Strayed.key _ _ _ h
  refine strays_ite (fun _ => strays_take hobject nofun) fun _ => ?_
  refine strays_ite (fun _ => strays_stop _ _) fun _ => ?_
  exact strays_ite (fun _ => strays_ok (.inside hclosed nofun)) fun _ => strays_stop _ _

theorem strays_stringDone (h : InArray r.stack) (isKey : Bool) (units : List StringUnit) :
    Strays (r.stringDone isKey units) := by
  refine strays_ite (fun _ => ?_) fun _ =>
    strays_scalar (r := r.take '"' .colon) h _
  split
  · next heq => exact strays_ok (.inside ((InArray.of_object (heq ▸ h)).above _) nofun)
  · exact strays_take h nofun

theorem strays_stepString (h : InArray r.stack) (isKey : Bool) (units : List StringUnit)
    (c : Char) : Strays (r.stepString isKey units c) := by
  have hrefuse : ∀ bad offset, InArray (r.refuse bad .endOfEscape offset).stack := by simpa using h
  refine strays_ite (fun _ => strays_stringDone (hrefuse _ _) isKey units) fun _ => ?_
  refine strays_ite (fun _ => strays_take (hrefuse _ _) nofun) fun _ => ?_
  exact strays_ite (fun _ => strays_stop _ _) fun _ => strays_take (hrefuse _ _) nofun

theorem strays_stepEscape (h : InArray r.stack) (isKey : Bool) (units : List StringUnit)
    (c : Char) : Strays (r.stepEscape isKey units c) := by
  have hrefuse : ∀ bad offset, InArray (r.refuse bad .endOfEscape offset).stack := by simpa using h
  refine strays_ite (fun _ => strays_take (hrefuse _ _) nofun) fun _ => ?_
  split
  · exact strays_take (hrefuse _ _) nofun
  · exact strays_stop _ _

theorem strays_stepHex (h : InArray r.stack) (isKey : Bool) (units : List StringUnit)
    (code : Option Nat) (bytes : Nat) (c : Char) : Strays (r.stepHex isKey units code bytes c) := by
  have hrefuse : ∀ bad offset, InArray (r.refuse bad .loneSurrogate offset).stack := by
    simpa using h
  refine strays_ite (fun _ => strays_take h nofun) fun _ => ?_
  split
  · exact strays_stop _ _
  · exact strays_take (hrefuse _ _) nofun

/-- A number that can end is complete in front of a character that does not belong to it. -/
theorem stepNumber_eq_bind {l : NumberLiteral} (hnext : l.next? c = none)
    (hend : l.canEndBefore c = true) :
    r.stepNumber l c = r.numberDone l >>= fun r => r.stepAfter (.number l.value?) c := by
  simp only [stepNumber, hnext, hend, if_true]
  cases r.numberDone l <;> rfl

theorem stepNumber_eq_stop {l : NumberLiteral} (hnext : l.next? c = none)
    (hend : l.canEndBefore c = false) : r.stepNumber l c = r.stopHere .invalidNumber := by
  simp only [stepNumber, hnext, hend, Bool.false_eq_true, if_false]

theorem strays_bind {x : Step} {f : Reading → Step} (hf : ∀ r, x = .ok r → Strays (f r)) :
    Strays (x >>= f) := by
  cases x with
  | error e => exact strays_error e
  | ok r => exact hf r rfl

theorem strays_stepNumber (h : InArray r.stack) (l : NumberLiteral) (c : Char) :
    Strays (r.stepNumber l c) := by
  cases hnext : l.next? c with
  | some l' =>
    simp only [stepNumber, hnext]
    exact strays_take (by simpa using h) nofun
  | none =>
    cases hend : l.canEndBefore c with
    | false =>
      rw [stepNumber_eq_stop hnext hend]
      exact strays_stop _ _
    | true =>
      rw [stepNumber_eq_bind hnext hend]
      refine strays_bind fun r' hdone => strays_stepAfter (.inside ?_ nofun) c
      rw [scalar_eq_ok hdone]
      simpa using h

theorem strays_step (h : Strayed r.stack r.mode) (c : Char) : Strays (r.step c) := by
  -- one case for each thing that can be read next, as in the step itself
  obtain ⟨objectOnly, mode, stack, offset, refusal⟩ := r
  cases h with
  | done hv => exact strays_stepAfter (.done hv) c
  | key members k before h => exact strays_stepKey members k h rfl before c
  | inside h hmode =>
    cases mode with
    | value before => exact strays_stepValue h before c
    | key before => exact absurd rfl (hmode before)
    | colon =>
      refine strays_ite (fun _ => strays_take h nofun) fun _ => ?_
      exact strays_ite (fun _ => strays_take h nofun) fun _ => strays_stop _ _
    | after v => exact strays_stepAfter (.inside h nofun) c
    | word left v =>
      match left with
      | [] => exact strays_stepAfter (.inside h nofun) c
      | [x] =>
        refine strays_ite (fun _ => ?_) fun _ => strays_stop _ _
        exact strays_scalar
          (r := take ⟨objectOnly, .word [x] v, stack, offset, refusal⟩ c (.after v)) h v
      | x :: y :: left => exact strays_ite (fun _ => strays_take h nofun) fun _ => strays_stop _ _
    | number l => exact strays_stepNumber h l c
    | string isKey units => exact strays_stepString h isKey units c
    | escape isKey units => exact strays_stepEscape h isKey units c
    | hex isKey units code bytes => exact strays_stepHex h isKey units code bytes c

theorem strays_foldlM (h : Strayed r.stack r.mode) (cs : List Char) :
    Strays (cs.foldlM step r) := by
  induction cs generalizing r with
  | nil => exact strays_ok h
  | cons c cs ih =>
    rw [List.foldlM_cons]
    exact strays_bind fun r' hstep => ih (strays_step h c r' hstep)

end Reading

end Depsolve.Json
