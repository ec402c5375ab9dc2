import Depsolve.Proofs.Json.Outermost
/-!
# The course of reading

What a reader is about after it has read some characters, given what it was about before them.
Only what is read next and which containers are open matters for that. Words, strings and what
stands between values are each read in one lemma, for whatever stands around them.
-/
namespace Depsolve.Json

namespace Reading

variable {r : Reading} {x : Step} {m m' m'' : Mode} {st st' st'' : List OpenDraft} {c : Char}
variable {cs cs' : List Char}

/-- A reader of any value, with what it reads next and what is open. -/
structure At (r : Reading) (m : Mode) (st : List OpenDraft) : Prop where
  any : r.objectOnly = false
  mode : r.mode = m
  stack : r.stack = st

theorem At.take (h : At r m st) (c : Char) (m' : Mode) : At (r.take c m') m' st :=
  ⟨h.any, rfl, h.stack⟩

theorem At.refuse (h : At r m st) (bad : Bool) (fault : Fault) (offset : Nat) :
    At (r.refuse bad fault offset) m st :=
  ⟨by simpa using h.any, by simpa using h.mode, by simpa using h.stack⟩

def Goes (x : Step) (m : Mode) (st : List OpenDraft) : Prop := ∃ r, x = .ok r ∧ At r m st

theorem goes_ok (h : At r m st) : Goes (.ok r) m st := ⟨r, rfl, h⟩

theorem goes_scalar (h : At r m st) (v : Draft) : Goes (r.scalar v) (.after v) st := by
  unfold scalar
  rw [if_neg (by simp [h.any])]
  exact goes_ok ⟨h.any, rfl, h.stack⟩

/-- The characters lead from one place to another. -/
def Reads (m : Mode) (st : List OpenDraft) (cs : List Char) (m' : Mode) (st' : List OpenDraft) :
    Prop :=
  ∀ r, At r m st → Goes (cs.foldlM step r) m' st'

theorem reads_nil : Reads m st [] m st := fun _ h => goes_ok h

theorem reads_append (h : Reads m st cs m' st') (h' : Reads m' st' cs' m'' st'') :
    Reads m st (cs ++ cs') m'' st'' := by
  intro r hr
  obtain ⟨r', heq, hr'⟩ := h r hr
  rw [List.foldlM_append, heq]
  exact h' r' hr'

theorem reads_one (h : ∀ r, At r m st → Goes (r.step c) m' st') : Reads m st [c] m' st' := by
  intro r hr
  obtain ⟨r', heq, hr'⟩ := h r hr
  rw [List.foldlM_cons, heq]
  exact goes_ok hr'

theorem reads_cons (h : Reads m st [c] m' st') (h' : Reads m' st' cs m'' st'') :
    Reads m st (c :: cs) m'' st'' :=
  reads_append h h'

/-! ### Words -/

theorem reads_word (v : Draft) (st : List OpenDraft) {left : List Char} (h : left ≠ []) :
    Reads (.word left v) st left (.after v) st := by
  induction left with
  | nil => exact absurd rfl h
  | cons c left ih =>
    cases left with
    | nil =>
      refine reads_one fun r hr => ?_
      simp only [step, hr.mode, beq_self_eq_true, if_true]
      exact goes_scalar (hr.take _ _) v
    | cons c' left =>
      refine reads_cons (reads_one fun r hr => ?_) (ih nofun)
      simp only [step, hr.mode, beq_self_eq_true, if_true]
      exact goes_ok (hr.take _ _)

theorem step_eq_beginValue {before : Before} (hr : At r (.value before) st)
    (hblank : isJsonBlank c = false) (hbracket : (c == ']') = false) :
    r.step c = r.beginValue c := by
  simp [step, hr.mode, stepValue, hblank, hbracket]

theorem reads_begin {m : Mode} {before : Before} (st : List OpenDraft) (c : Char)
    (hblank : isJsonBlank c = false) (hbracket : (c == ']') = false)
    (hbegin : ∀ r : Reading, r.beginValue c = .ok (r.take c m)) :
    Reads (.value before) st [c] m st := by
  refine reads_one fun r hr => ?_
  rw [step_eq_beginValue hr hblank hbracket, hbegin]
  exact goes_ok (hr.take _ _)

theorem reads_null (before : Before) (st : List OpenDraft) :
    Reads (.value before) st "null".toList (.after .null) st :=
  reads_cons (reads_begin st 'n' rfl rfl fun _ => rfl) (reads_word .null st nofun)

theorem reads_bool (b : Bool) (before : Before) (st : List OpenDraft) :
    Reads (.value before) st (if b then "true" else "false").toList (.after (.bool b)) st := by
  cases b with
  | true => exact reads_cons (reads_begin st 't' rfl rfl fun _ => rfl) (reads_word _ st nofun)
  | false => exact reads_cons (reads_begin st 'f' rfl rfl fun _ => rfl) (reads_word _ st nofun)

/-! ### Strings -/

section Strings

variable (isKey : Bool) (units : List StringUnit) (st : List OpenDraft)

theorem reads_plain {c : Char} (hquote : c ≠ '"') (hslash : c ≠ '\\')
    (hcontrol : ¬c.toNat < 0x20) :
    Reads (.string isKey units) st [c] (.string isKey (.char c :: units)) st := by
  refine reads_one fun r hr => ?_
  simp only [step, hr.mode, stepString, beq_eq_false_iff_ne.mpr hquote,
    beq_eq_false_iff_ne.mpr hslash, hcontrol, Bool.false_eq_true, if_false]
  exact goes_ok ((hr.refuse _ _ _).take _ _)

theorem reads_backslash :
    Reads (.string isKey units) st ['\\'] (.escape isKey units) st := by
  refine reads_one fun r hr => ?_
  simp only [step, hr.mode, stepString]
  exact goes_ok ((hr.refuse _ _ _).take _ _)

theorem reads_escape {c x : Char} (hu : c ≠ 'u') (hx : simpleEscape? c = some x) :
    Reads (.string isKey units) st ['\\', c] (.string isKey (.char x :: units)) st := by
  refine reads_cons (reads_backslash isKey units st) (reads_one fun r hr => ?_)
  simp only [step, hr.mode, stepEscape, beq_eq_false_iff_ne.mpr hu, Bool.false_eq_true, if_false,
    hx]
  exact goes_ok ((hr.refuse _ _ _).take _ _)

theorem hexDigit_spec :
    ∀ n < 16, hexValue? (hexDigit n) = some n ∧ (hexDigit n).utf8Size = 1 := by
  decide

theorem reads_hex {code bytes d : Nat} (hd : d < 16) (hbytes : bytes < 3) :
    Reads (.hex isKey units (some code) bytes) st [hexDigit d]
      (.hex isKey units (some (16 * code + d)) (bytes + 1)) st := by
  refine reads_one fun r hr => ?_
  obtain ⟨hvalue, hsize⟩ := hexDigit_spec d hd
  have hmore : bytes + 1 < 4 := by omega
  simp only [step, hr.mode, stepHex, hvalue, hsize, hmore, if_true]
  exact goes_ok (hr.take _ _)

theorem reads_hex_last (code : Nat) {d : Nat} (hd : d < 16) :
    Reads (.hex isKey units (some code) 3) st [hexDigit d]
      (.string isKey (unitOfCode (16 * code + d) :: units)) st := by
  refine reads_one fun r hr => ?_
  obtain ⟨hvalue, hsize⟩ := hexDigit_spec d hd
  simp only [step, hr.mode, stepHex, hvalue, hsize, Nat.reduceAdd, Nat.lt_irrefl, if_false]
  exact goes_ok ((hr.refuse _ _ _).take _ _)

theorem reads_code {c : Char} (hcontrol : c.toNat < 0x20) :
    Reads (.string isKey units) st
      ['\\', 'u', '0', '0', hexDigit (c.toNat / 16), hexDigit (c.toNat % 16)]
      (.string isKey (.char c :: units)) st := by
  have hcode : 16 * (16 * 0 + c.toNat / 16) + c.toNat % 16 = c.toNat := by omega
  have hunit : unitOfCode c.toNat = .char c := by
    have hlow : isSurrogate c.toNat = false := by
      simp only [isSurrogate, Bool.and_eq_false_iff, decide_eq_false_iff_not]
      omega
    rw [unitOfCode, hlow, if_neg Bool.false_ne_true, Char.ofNat_toNat]
  refine reads_cons (reads_backslash isKey units st) ?_
  have hu : Reads (.escape isKey units) st ['u'] (.hex isKey units (some 0) 0) st := by
    refine reads_one fun r hr => ?_
    simp only [step, hr.mode, stepEscape, beq_self_eq_true, if_true]
    exact goes_ok ((hr.refuse _ _ _).take _ _)
  refine reads_cons hu ?_
  refine reads_cons (reads_hex isKey units st (d := 0) (by decide) (by decide)) ?_
  refine reads_cons (reads_hex isKey units st (d := 0) (by decide) (by decide)) ?_
  refine reads_cons (reads_hex isKey units st (d := c.toNat / 16) (by omega) (by decide)) ?_
  have hlast := reads_hex_last isKey units st (16 * 0 + c.toNat / 16)
    (Nat.mod_lt c.toNat (by decide : 0 < 16))
  rw [hcode, hunit] at hlast
  exact hlast

theorem reads_escapeChar (c : Char) :
    Reads (.string isKey units) st (escapeChar c) (.string isKey (.char c :: units)) st := by
  unfold escapeChar
  split
  · exact reads_escape isKey units st (by decide) rfl
  · exact reads_escape isKey units st (by decide) rfl
  · exact reads_escape isKey units st (by decide) rfl
  · exact reads_escape isKey units st (by decide) rfl
  · exact reads_escape isKey units st (by decide) rfl
  · exact reads_escape isKey units st (by decide) rfl
  · exact reads_escape isKey units st (by decide) rfl
  · next hquote hslash _ _ _ _ _ =>
    split
    · next hcontrol => exact reads_code isKey units st hcontrol
    · next hcontrol => exact reads_plain isKey units st hquote hslash hcontrol

theorem reads_escaped (cs : List Char) :
    Reads (.string isKey units) st (cs.flatMap escapeChar)
      (.string isKey ((cs.map StringUnit.char).reverse ++ units)) st := by
  induction cs generalizing units with
  | nil => exact reads_nil
  | cons c cs ih =>
    rw [List.flatMap_cons, List.map_cons, List.reverse_cons, List.append_assoc]
    exact reads_append (reads_escapeChar isKey units st c) (ih (.char c :: units))

end Strings

theorem joinUnits?_chars (cs : List Char) : joinUnits? (cs.map .char) = some cs := by
  induction cs with
  | nil => rfl
  | cons c cs ih => simp [joinUnits?, ih]

theorem toList_quote (s : String) :
    (quote s).toList = '"' :: (s.toList.flatMap escapeChar ++ ['"']) := by
  simp [quote]

theorem text_of_escaped (s : String) :
    (joinUnits? ((s.toList.map StringUnit.char).reverse ++ []).reverse).map String.ofList =
      some s := by
  simp [joinUnits?_chars]

theorem reads_string (s : String) (before : Before) (st : List OpenDraft) :
    Reads (.value before) st (quote s).toList (.after (.string (some s))) st := by
  rw [toList_quote]
  refine reads_cons (reads_begin st '"' rfl rfl fun _ => rfl)
    (reads_append (reads_escaped false [] st s.toList) (reads_one fun r hr => ?_))
  simp only [step, hr.mode, stepString, beq_self_eq_true, if_true, stringDone, text_of_escaped,
    Bool.false_eq_true, if_false]
  exact goes_scalar ((hr.refuse _ _ _).take _ _) _

theorem goes_keyDone {members : List (Option String × Draft)} {k : Option String}
    (h : At r m (.object members k :: st)) (s : String) :
    Goes (r.stringDone true ((s.toList.map StringUnit.char).reverse ++ [])) .colon
      (.object members (some s) :: st) := by
  have htaken := h.take '"' .colon
  simp only [stringDone, text_of_escaped, if_true, htaken.stack]
  exact goes_ok ⟨htaken.any, rfl, rfl⟩

theorem reads_key (s : String) (before : Before) (members : List (Option String × Draft))
    (k : Option String) (st : List OpenDraft) :
    Reads (.key before) (.object members k :: st) (quote s).toList .colon
      (.object members (some s) :: st) := by
  have hopen : Reads (.key before) (.object members k :: st) ['"'] (.string true [])
      (.object members k :: st) := by
    refine reads_one fun r hr => ?_
    simp only [step, hr.mode, stepKey]
    exact goes_ok (hr.take _ _)
  rw [toList_quote]
  refine reads_cons hopen
    (reads_append (reads_escaped true [] _ s.toList) (reads_one fun r hr => ?_))
  simp only [step, hr.mode, stepString, beq_self_eq_true, if_true]
  exact goes_keyDone (hr.refuse _ _ _) s

theorem reads_colon (st : List OpenDraft) : Reads .colon st [':'] (.value .start) st := by
  refine reads_one fun r hr => ?_
  simp only [step, hr.mode]
  exact goes_ok (hr.take _ _)

/-! ### Between values -/

/-- A value is complete, or it is a number that is complete as soon as it does not go on. -/
inductive Complete : Mode → Draft → Prop
  | after (v : Draft) : Complete (.after v) v
  | number {l : NumberLiteral} (h : l.stage = .zero ∨ l.stage = .whole) :
    Complete (.number l) (.number l.value?)

theorem goes_numberDone (h : At r m st) (l : NumberLiteral) :
    Goes (r.numberDone l) (.after (.number l.value?)) st :=
  goes_scalar (h.refuse _ _ _) _

theorem next?_eq_none {l : NumberLiteral} (h : l.stage = .zero ∨ l.stage = .whole)
    (hc : c = ',' ∨ c = ']' ∨ c = '\x7d') : l.next? c = none ∧ l.canEndBefore c = true := by
  have hdigit : c.isDigit = false := by
    obtain rfl | rfl | rfl := hc <;> rfl
  have hmark : NumberLiteral.next?.markOrPoint l c = none := by
    obtain rfl | rfl | rfl := hc <;> rfl
  obtain h | h := h <;>
    simp [NumberLiteral.next?, NumberLiteral.canEndBefore, NumberStage.isEnd, h, hdigit, hmark]

/-- A comma or a closing bracket completes a value. -/
theorem reads_between {v : Draft} (hcomplete : Complete m v)
    (hc : c = ',' ∨ c = ']' ∨ c = '\x7d')
    (h : ∀ r, At r (.after v) st → Goes (r.stepAfter v c) m' st') : Reads m st [c] m' st' := by
  refine reads_one fun r hr => ?_
  cases hcomplete with
  | after =>
    simp only [step, hr.mode]
    exact h r hr
  | @number l hstage =>
    obtain ⟨hnext, hend⟩ := next?_eq_none hstage hc
    obtain ⟨r', hdone, hr'⟩ := goes_numberDone hr l
    simp only [step, hr.mode]
    rw [stepNumber_eq_bind hnext hend, hdone]
    exact h r' hr'

section Between

variable {v : Draft} (hcomplete : Complete m v)
include hcomplete

theorem reads_listComma (items : List Draft) (st : List OpenDraft) :
    Reads m (.array items :: st) [','] (.value .comma) (.array (v :: items) :: st) :=
  reads_between hcomplete (.inl rfl) fun r hr => by
    simp only [stepAfter, hr.stack]
    exact goes_ok ⟨hr.any, rfl, rfl⟩

theorem reads_listEnd (items : List Draft) (st : List OpenDraft) :
    Reads m (.array items :: st) [']'] (.after (.array (v :: items).reverse)) st :=
  reads_between hcomplete (.inr (.inl rfl)) fun r hr => by
    simp only [stepAfter, hr.stack]
    exact goes_ok ⟨hr.any, rfl, rfl⟩

theorem reads_objectComma (members : List (Option String × Draft)) (k : Option String)
    (st : List OpenDraft) :
    Reads m (.object members k :: st) [','] (.key .comma)
      (.object ((k, v) :: members) none :: st) :=
  reads_between hcomplete (.inl rfl) fun r hr => by
    simp only [stepAfter, hr.stack]
    exact goes_ok ⟨hr.any, rfl, rfl⟩

theorem reads_objectEnd (members : List (Option String × Draft)) (k : Option String)
    (st : List OpenDraft) :
    Reads m (.object members k :: st) ['\x7d'] (.after (.object ((k, v) :: members).reverse)) st :=
  reads_between hcomplete (.inr (.inr rfl)) fun r hr => by
    simp only [stepAfter, hr.stack]
    exact goes_ok ⟨hr.any, rfl, rfl⟩

end Between

theorem reads_openList (before : Before) (st : List OpenDraft) :
    Reads (.value before) st ['['] (.value .openBracket) (.array [] :: st) := by
  refine reads_one fun r hr => ?_
  rw [step_eq_beginValue hr rfl rfl, beginValue, if_neg (by simp [hr.any])]
  exact goes_ok ⟨by simpa [opened, take] using hr.any, rfl, by simp [opened, hr.stack]⟩

theorem reads_openObject (before : Before) (st : List OpenDraft) :
    Reads (.value before) st ['\x7b'] (.key .openBracket) (.object [] none :: st) := by
  refine reads_one fun r hr => ?_
  rw [step_eq_beginValue hr rfl rfl, beginValue]
  exact goes_ok ⟨by simpa [opened, take] using hr.any, rfl, by simp [opened, hr.stack]⟩

theorem reads_emptyList (st : List OpenDraft) :
    Reads (.value .openBracket) (.array [] :: st) [']'] (.after (.array [])) st := by
  refine reads_one fun r hr => ?_
  simp only [step, hr.mode, stepValue]
  exact goes_ok ⟨hr.any, rfl, by simp [hr.stack]⟩

theorem reads_emptyObject (st : List OpenDraft) :
    Reads (.key .openBracket) (.object [] none :: st) ['\x7d'] (.after (.object [])) st := by
  refine reads_one fun r hr => ?_
  simp only [step, hr.mode, stepKey]
  exact goes_ok ⟨hr.any, rfl, by simp [hr.stack]⟩

theorem finish_complete {v : Draft} (hcomplete : Complete m v) (hr : At r m []) :
    ∃ refusal, r.finish = .ok (v, refusal) := by
  have hafter (r : Reading) (h : r.stack = []) : r.finishAfter v = .ok (v, r.refusal) := by
    simp [finishAfter, h]
  cases hcomplete with
  | after =>
    refine ⟨r.refusal, ?_⟩
    simp only [finish, hr.mode]
    exact hafter r hr.stack
  | @number l hstage =>
    have hend : l.stage.isEnd = true := by
      obtain h | h := hstage <;> rw [h] <;> rfl
    obtain ⟨r', hdone, hr'⟩ := goes_numberDone hr l
    refine ⟨r'.refusal, ?_⟩
    rw [finish_eq_bind hr.mode hend, hdone]
    exact hafter r' hr'.stack

end Reading

end Depsolve.Json
