import Depsolve.Proofs.Json.Integer
/-!
# Reading back what was written

A value without floats, of integers that fit in 64 bits and not nested too deep, is read from its
own text. The reader comes through the characters that each part is written with, and is left
with a draft of the part, whatever stands around it.
-/
namespace Depsolve.Json

open Reading

/-- Free of floats, with integers of 64 bits and with each key of an object once. Containers are
nested no deeper than the number tells. -/
inductive Plain : Nat → Json → Prop
  | null (depth : Nat) : Plain depth .null
  | bool (depth : Nat) (b : Bool) : Plain depth (.bool b)
  | int (depth : Nat) {n : Int} (h : IsWord n) : Plain depth (.int n)
  | string (depth : Nat) (s : String) : Plain depth (.string s)
  | array {depth : Nat} {items : List Json} (h : ∀ v ∈ items, Plain depth v) :
    Plain (depth + 1) (.array items)
  | object {depth : Nat} {members : List (String × Json)} (hkeys : (members.map Prod.fst).Nodup)
    (h : ∀ m ∈ members, Plain depth m.2) : Plain (depth + 1) (.object members)

/-- The characters that a value is written with lead a reader to a draft of this value. -/
structure Recovered (depth : Nat) (v : Json) (cs : List Char) (m : Mode) (d : Draft) : Prop where
  written : ∀ out, (write out v).toList = out.toList ++ cs
  reads : ∀ before st, Reads (.value before) st cs m st
  complete : Complete m d
  value : ∀ left, depth < left → d.value? left = some v

def Recovers (depth : Nat) (v : Json) : Prop := ∃ cs m d, Recovered depth v cs m d

variable {depth : Nat}

/-- The items of a list, from any of them on up to the closing bracket. -/
theorem recovers_items {items : List Json} (hne : items ≠ [])
    (h : ∀ v ∈ items, Recovers depth v) :
    ∃ cs ds, (∀ out, (writeItems out items).toList = out.toList ++ cs) ∧
      (∀ before done st, Reads (.value before) (.array done :: st) (cs ++ [']'])
        (.after (.array (done.reverse ++ ds))) st) ∧
      ∀ left, depth < left → itemValues? left ds = some items := by
  induction items with
  | nil => exact absurd rfl hne
  | cons v items ih =>
    obtain ⟨cs, m, d, hv⟩ := h v List.mem_cons_self
    cases items with
    | nil =>
      refine ⟨cs, [d], hv.written, fun before done st => ?_, fun left hleft => ?_⟩
      · have hend := reads_listEnd hv.complete done st
        rw [List.reverse_cons] at hend
        exact reads_append (hv.reads before _) hend
      · simp [itemValues?, hv.value left hleft]
    | cons v' items =>
      obtain ⟨cs', ds, hwritten, hreads, hvalue⟩ :=
        ih nofun fun v hmem => h v (List.mem_cons_of_mem _ hmem)
      refine ⟨cs ++ ',' :: cs', d :: ds, fun out => ?_, fun before done st => ?_,
        fun left hleft => ?_⟩
      · rw [writeItems, hwritten, String.toList_push, hv.written]
        · simp
        · nofun
      · have hrest := hreads .comma (d :: done) st
        rw [List.reverse_cons, List.append_assoc] at hrest
        rw [List.append_assoc]
        exact reads_append (hv.reads before _)
          (reads_cons (reads_listComma hv.complete done st) hrest)
      · simp [itemValues?, hv.value left hleft, hvalue left hleft]

theorem recovers_array {items : List Json} (h : ∀ v ∈ items, Recovers depth v) :
    Recovers (depth + 1) (.array items) := by
  -- an empty list is closed where its first item would stand
  obtain ⟨cs, ds, hwritten, hreads, hvalue⟩ :
      ∃ cs ds, (∀ out, (writeItems out items).toList = out.toList ++ cs) ∧
        (∀ st, Reads (.value .openBracket) (.array [] :: st) (cs ++ [']'])
          (.after (.array ds)) st) ∧
        ∀ left, depth < left → itemValues? left ds = some items := by
    by_cases hempty : items = []
    · subst hempty
      exact ⟨[], [], fun out => by simp [writeItems], reads_emptyList, fun _ _ => rfl⟩
    · obtain ⟨cs, ds, hwritten, hreads, hvalue⟩ := recovers_items hempty h
      exact ⟨cs, ds, hwritten, hreads .openBracket [], hvalue⟩
  refine ⟨'[' :: (cs ++ [']']), .after (.array ds), .array ds, ?_, ?_, .after _, ?_⟩
  · intro out
    simp [write, hwritten]
  · exact fun before st => reads_cons (reads_openList before st) (hreads st)
  · intro left hleft
    have hdeep : ¬left ≤ 1 := by omega
    simp [Draft.value?, hdeep, hvalue (left - 1) (by omega)]

theorem recovers_member {k : String} {v : Json} (h : Recovers depth v) :
    ∃ cs m d, (∀ out, (writeMember out (k, v)).toList = out.toList ++ cs) ∧
      (∀ before done st, Reads (.key before) (.object done none :: st) cs m
        (.object done (some k) :: st)) ∧
      Complete m d ∧ ∀ left, depth < left → memberValue? left (some k, d) = some (k, v) := by
  obtain ⟨cs, m, d, hv⟩ := h
  refine ⟨(quote k).toList ++ ':' :: cs, m, d, ?_, ?_, hv.complete, ?_⟩
  · intro out
    simp [writeMember, hv.written]
  · exact fun before done st => reads_append (reads_key k before done none st)
      (reads_cons (reads_colon _) (hv.reads .start _))
  · intro left hleft
    simp [memberValue?, hv.value left hleft]

theorem recovers_members {members : List (String × Json)} (hne : members ≠ [])
    (h : ∀ m ∈ members, Recovers depth m.2) :
    ∃ cs ds, (∀ out, (writeMembers out members).toList = out.toList ++ cs) ∧
      (∀ before done st, Reads (.key before) (.object done none :: st) (cs ++ ['\x7d'])
        (.after (.object (done.reverse ++ ds))) st) ∧
      ∀ left, depth < left → memberValues? left ds = some members := by
  induction members with
  | nil => exact absurd rfl hne
  | cons member members ih =>
    obtain ⟨k, v⟩ := member
    obtain ⟨cs, m, d, hwritten, hreads, hcomplete, hvalue⟩ :=
      recovers_member (k := k) (h (k, v) List.mem_cons_self)
    cases members with
    | nil =>
      refine ⟨cs, [(some k, d)], hwritten, fun before done st => ?_, fun left hleft => ?_⟩
      · have hend := reads_objectEnd hcomplete done (some k) st
        rw [List.reverse_cons] at hend
        exact reads_append (hreads before done st) hend
      · simp [memberValues?, hvalue left hleft]
    | cons member' members =>
      obtain ⟨cs', ds, hwritten', hreads', hvalue'⟩ :=
        ih nofun fun m hmem => h m (List.mem_cons_of_mem _ hmem)
      refine ⟨cs ++ ',' :: cs', (some k, d) :: ds, fun out => ?_, fun before done st => ?_,
        fun left hleft => ?_⟩
      · rw [writeMembers, hwritten', String.toList_push, hwritten]
        · simp
        · nofun
      · have hrest := hreads' .comma ((some k, d) :: done) st
        rw [List.reverse_cons, List.append_assoc] at hrest
        rw [List.append_assoc]
        exact reads_append (hreads before done st)
          (reads_cons (reads_objectComma hcomplete done (some k) st) hrest)
      · simp [memberValues?, hvalue left hleft, hvalue' left hleft]

theorem recovers_object {members : List (String × Json)} (hkeys : (members.map Prod.fst).Nodup)
    (h : ∀ m ∈ members, Recovers depth m.2) : Recovers (depth + 1) (.object members) := by
  obtain ⟨cs, ds, hwritten, hreads, hvalue⟩ :
      ∃ cs ds, (∀ out, (writeMembers out members).toList = out.toList ++ cs) ∧
        (∀ st, Reads (.key .openBracket) (.object [] none :: st) (cs ++ ['\x7d'])
          (.after (.object ds)) st) ∧
        ∀ left, depth < left → memberValues? left ds = some members := by
    by_cases hempty : members = []
    · subst hempty
      exact ⟨[], [], fun out => by simp [writeMembers], reads_emptyObject, fun _ _ => rfl⟩
    · obtain ⟨cs, ds, hwritten, hreads, hvalue⟩ := recovers_members hempty h
      exact ⟨cs, ds, hwritten, hreads .openBracket [], hvalue⟩
  refine ⟨'\x7b' :: (cs ++ ['\x7d']), .after (.object ds), .object ds, ?_, ?_, .after _, ?_⟩
  · intro out
    simp [write, hwritten]
  · exact fun before st => reads_cons (reads_openObject before st) (hreads st)
  · intro left hleft
    have hdeep : ¬left ≤ 1 := by omega
    simp [Draft.value?, hdeep, hvalue (left - 1) (by omega), Association.ofList_of_nodup hkeys]

theorem recovers_of_plain {v : Json} (h : Plain depth v) : Recovers depth v := by
  induction h with
  | null depth =>
    exact ⟨_, _, _, fun out => String.toList_append, reads_null, .after _, fun _ _ => rfl⟩
  | bool depth b =>
    exact ⟨_, _, _, fun out => String.toList_append, reads_bool b, .after _, fun _ _ => rfl⟩
  | int depth h =>
    obtain ⟨l, hreads, hstage, hvalue⟩ := reads_int h
    exact ⟨_, _, _, fun out => String.toList_append, hreads, .number hstage, fun _ _ => hvalue⟩
  | string depth s =>
    exact ⟨_, _, _, fun out => String.toList_append, reads_string s, .after _, fun _ _ => rfl⟩
  | array _ ih => exact recovers_array ih
  | object hkeys _ ih => exact recovers_object hkeys ih

theorem read_text {v : Json} (h : Plain depth v) (hdepth : depth < depthLimit) :
    read v.text = .ok v := by
  obtain ⟨cs, m, d, hv⟩ := recovers_of_plain h
  have hchars : v.text.toList = cs := hv.written ""
  obtain ⟨r, hrun, hr⟩ := hv.reads .start [] {} ⟨rfl, rfl, rfl⟩
  obtain ⟨refusal, hfinish⟩ := finish_complete hv.complete hr
  rw [read, ofScan_eq_ok_iff]
  refine ⟨d, refusal, ?_, hv.value depthLimit hdepth⟩
  rw [scan_eq_bind, hchars, hrun]
  exact hfinish

end Depsolve.Json
