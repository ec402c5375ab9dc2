import Depsolve.Proofs.Version.Normal
/-!
# The byte encoding of builds

Each token has a code that tells where it ends: a mark is one byte, and a run is
closed by a byte that no character has. So the codes of a row of tokens, and those
of a whole build, can be told apart, and two builds have the same bytes exactly if
they are spellings of one build.
-/
namespace Depsolve

/-- Texts that are ended by elements which occur in neither of them end at the same place. -/
theorem append_cons_inj_of_ends {α : Type} {x y : α} {as bs r r' : List α} (hx : x ∉ bs)
    (hy : y ∉ as) (h : as ++ x :: r = bs ++ y :: r') : as = bs ∧ x = y ∧ r = r' := by
  induction as generalizing bs with
  | nil =>
    cases bs with
    | nil =>
      obtain ⟨hhead, htail⟩ := List.cons.inj h
      exact ⟨rfl, hhead, htail⟩
    | cons b bs =>
      have hhead : x = b := (List.cons.inj h).1
      exact absurd (hhead ▸ List.mem_cons_self) hx
  | cons a as ih =>
    cases bs with
    | nil =>
      have hhead : a = y := (List.cons.inj h).1
      exact absurd (hhead ▸ List.mem_cons_self) hy
    | cons b bs =>
      obtain ⟨hhead, htail⟩ := List.cons.inj h
      have hx' : x ∉ bs := fun hmem => hx (List.mem_cons_of_mem b hmem)
      have hy' : y ∉ as := fun hmem => hy (List.mem_cons_of_mem a hmem)
      obtain ⟨hrest, hends⟩ := ih hx' hy' htail
      exact ⟨by rw [hhead, hrest], hends⟩

namespace Version

section Characters

variable {c d : Char} {a b : List Char}

theorem toNat_of_isAlphanum (h : c.isAlphanum = true) : 48 ≤ c.toNat ∧ c.toNat ≤ 122 := by
  rw [Char.isAlphanum, Bool.or_eq_true] at h
  cases h with
  | inl halpha =>
    have hbounds := toNat_of_isAlpha halpha
    omega
  | inr hdigit =>
    have hbounds := toNat_of_isDigit hdigit
    have hzero : '0'.toNat = 48 := rfl
    have hnine : '9'.toNat = 57 := rfl
    omega

theorem toNat_byteOf_of_isAlphanum (h : c.isAlphanum = true) : (byteOf c).toNat = c.toNat := by
  have hbounds := toNat_of_isAlphanum h
  apply UInt8.toNat_ofNat_of_lt'
  show c.toNat < 256
  omega

theorem byteOf_inj (hc : c.isAlphanum = true) (hd : d.isAlphanum = true)
    (h : byteOf c = byteOf d) : c = d := by
  apply Char.toNat_inj.mp
  rw [← toNat_byteOf_of_isAlphanum hc, ← toNat_byteOf_of_isAlphanum hd, h]

theorem map_byteOf_inj (ha : ∀ c ∈ a, c.isAlphanum = true) (hb : ∀ c ∈ b, c.isAlphanum = true)
    (h : a.map byteOf = b.map byteOf) : a = b := by
  induction a generalizing b with
  | nil => exact (List.map_eq_nil_iff.mp h.symm).symm
  | cons x a ih =>
    cases b with
    | nil => simp at h
    | cons y b =>
      obtain ⟨hx, ha⟩ := List.forall_mem_cons.mp ha
      obtain ⟨hy, hb⟩ := List.forall_mem_cons.mp hb
      simp only [List.map_cons, List.cons.injEq] at h
      rw [byteOf_inj hx hy h.1, ih ha hb h.2]

theorem toNat_of_mem_map_byteOf {x : UInt8} (ha : ∀ c ∈ a, c.isAlphanum = true)
    (hx : x ∈ a.map byteOf) : 48 ≤ x.toNat ∧ x.toNat ≤ 122 := by
  obtain ⟨c, hc, rfl⟩ := List.mem_map.mp hx
  rw [toNat_byteOf_of_isAlphanum (ha c hc)]
  exact toNat_of_isAlphanum (ha c hc)

theorem closing_notMem_map_byteOf (ha : ∀ c ∈ a, c.isAlphanum = true) :
    (0xff : UInt8) ∉ a.map byteOf := by
  intro hmem
  have hbounds := toNat_of_mem_map_byteOf ha hmem
  have hclosing : (0xff : UInt8).toNat = 255 := rfl
  omega

end Characters

section Tokens

variable {t u : Token} {ts us : List Token}

theorem isAlphanum_of_proper (h : Proper (some t)) :
    ∀ c ∈ content (some t), c.isAlphanum = true := by
  intro c hc
  cases t with
  | tilde | caret => simp [content] at hc
  | letters run => simp [Char.isAlphanum, h c hc]
  | number digits =>
    obtain ⟨run, rfl, hrun⟩ := h
    simp [Char.isAlphanum, hrun c (mem_of_mem_stripZeros hc)]

theorem proper_of_mem_tokens {s : String} (h : t ∈ tokens s) : Proper (some t) :=
  proper_of_splits (splits_tokensFrom s.toList) t h

theorem run_inj {a b : List Char} {r r' : List UInt8} (ha : ∀ c ∈ a, c.isAlphanum = true)
    (hb : ∀ c ∈ b, c.isAlphanum = true)
    (h : a.map byteOf ++ 0xff :: r = b.map byteOf ++ 0xff :: r') : a = b ∧ r = r' := by
  obtain ⟨hrun, -, hrest⟩ := append_cons_inj_of_ends (closing_notMem_map_byteOf hb)
    (closing_notMem_map_byteOf ha) h
  exact ⟨map_byteOf_inj ha hb hrun, hrest⟩

theorem Token.bytes_append_inj {r r' : List UInt8} (ht : Proper (some t)) (hu : Proper (some u))
    (h : t.bytes ++ r = u.bytes ++ r') : t = u ∧ r = r' := by
  have hta := isAlphanum_of_proper ht
  have hua := isAlphanum_of_proper hu
  -- tokens of different kinds differ in their first bytes
  cases t <;> cases u <;>
    simp only [Token.bytes, byteOf, List.cons_append, List.nil_append, List.append_assoc,
      List.cons.injEq] at h
  case tilde.tilde => exact ⟨rfl, h.2⟩
  case caret.caret => exact ⟨rfl, h.2⟩
  case letters.letters =>
    obtain ⟨hrun, hrest⟩ := run_inj hta hua h.2
    exact ⟨congrArg Token.letters hrun, hrest⟩
  case number.number =>
    obtain ⟨hrun, hrest⟩ := run_inj hta hua h.2
    exact ⟨congrArg Token.number hrun, hrest⟩
  all_goals exact absurd h.1 (by decide)

theorem Token.bytes_ne_nil (t : Token) : t.bytes ≠ [] := by
  cases t <;> simp [Token.bytes]

theorem flatMap_bytes_inj (hts : ∀ t ∈ ts, Proper (some t)) (hus : ∀ u ∈ us, Proper (some u))
    (h : ts.flatMap Token.bytes = us.flatMap Token.bytes) : ts = us := by
  induction ts generalizing us with
  | nil =>
    cases us with
    | nil => rfl
    | cons u us => simp [u.bytes_ne_nil] at h
  | cons t ts ih =>
    cases us with
    | nil => simp [t.bytes_ne_nil] at h
    | cons u us =>
      obtain ⟨ht, hts⟩ := List.forall_mem_cons.mp hts
      obtain ⟨hu, hus⟩ := List.forall_mem_cons.mp hus
      rw [List.flatMap_cons, List.flatMap_cons] at h
      obtain ⟨hhead, hrest⟩ := Token.bytes_append_inj ht hu h
      rw [hhead, ih hts hus hrest]

theorem bytes_eq_bytes_iff {s s' : String} : bytes s = bytes s' ↔ tokens s = tokens s' := by
  constructor
  · exact flatMap_bytes_inj (fun _ => proper_of_mem_tokens) fun _ => proper_of_mem_tokens
  · intro h
    rw [bytes, bytes, h]

theorem one_lt_of_mem_bytes {s : String} {x : UInt8} (h : x ∈ bytes s) : 1 < x.toNat := by
  obtain ⟨t, ht, hx⟩ := List.mem_flatMap.mp h
  have hta := isAlphanum_of_proper (proper_of_mem_tokens ht)
  cases t with
  | tilde | caret =>
    simp only [Token.bytes, List.mem_singleton] at hx
    subst hx
    decide
  | letters run | number run =>
    simp only [Token.bytes, List.mem_cons, List.mem_append, List.not_mem_nil, or_false] at hx
    rcases hx with (rfl | hrun) | rfl
    · decide
    · have hbounds := toNat_of_mem_map_byteOf hta hrun
      omega
    · decide

end Tokens

end Version

namespace Evr

open Version

theorem wordBytes_inj {m n : UInt32} (h : wordBytes m = wordBytes n) : m = n := by
  simp only [wordBytes, List.cons.injEq, and_true] at h
  obtain ⟨h₀, h₁, h₂, h₃⟩ := h
  apply UInt32.toNat_inj.mp
  have hm := m.toNat_lt
  have hn := n.toNat_lt
  have e₀ := congrArg UInt8.toNat h₀
  have e₁ := congrArg UInt8.toNat h₁
  have e₂ := congrArg UInt8.toNat h₂
  have e₃ := congrArg UInt8.toNat h₃
  simp only [UInt32.toNat_toUInt8, UInt32.toNat_shiftRight, Nat.shiftRight_eq_div_pow,
    Nat.reducePow, UInt32.reduceToNat, Nat.reduceMod] at e₀ e₁ e₂ e₃
  omega

theorem releaseFlag_notMem_bytes (b : Bool) (s : String) :
    (if b then 1 else 0 : UInt8) ∉ Version.bytes s := by
  intro hmem
  have hlt := one_lt_of_mem_bytes hmem
  cases b <;> simp at hlt

/-- Epoch, tokens and the presence of a release can be read back from the bytes of a build. -/
theorem bytes_eq_bytes_iff (e f : Evr) : e.bytes = f.bytes ↔ e.epoch = f.epoch ∧
    tokens e.version = tokens f.version ∧ e.hasRelease = f.hasRelease ∧
    tokens e.release = tokens f.release := by
  constructor
  · intro h
    simp only [bytes, List.append_assoc, List.singleton_append] at h
    obtain ⟨hepoch, hrest⟩ := List.append_inj h rfl
    obtain ⟨hversion, hflag, hrelease⟩ := append_cons_inj_of_ends
      (releaseFlag_notMem_bytes e.hasRelease f.version)
      (releaseFlag_notMem_bytes f.hasRelease e.version) hrest
    refine ⟨wordBytes_inj hepoch, Version.bytes_eq_bytes_iff.mp hversion, ?_,
      Version.bytes_eq_bytes_iff.mp hrelease⟩
    cases he : e.hasRelease <;> cases hf : f.hasRelease <;> simp [he, hf] at hflag ⊢
  · intro h
    obtain ⟨hepoch, hversion, hflag, hrelease⟩ := h
    rw [bytes, bytes, hepoch, hflag, Version.bytes_eq_bytes_iff.mpr hversion,
      Version.bytes_eq_bytes_iff.mpr hrelease]

/-- Two builds have the same bytes exactly if they are spellings of one build. The bytes are those
of one epoch, one row of tokens for the version and, behind a mark of its own, one for the
release. -/
theorem same_iff_bytes (e f : Evr) :
    (e.same f = true ↔ e.bytes = f.bytes) ∧
    (e.bytes = f.bytes ↔ e.epoch = f.epoch ∧ tokens e.version = tokens f.version ∧
      e.hasRelease = f.hasRelease ∧ tokens e.release = tokens f.release) := by
  have hbytes := bytes_eq_bytes_iff e f
  exact ⟨(same_iff e f).trans hbytes.symm, hbytes⟩

example : (Evr.mk 0 "1.0" "1").bytes = (Evr.mk 0 "01.00" "01").bytes ∧
    (Evr.mk 0 "1.0" "").bytes ≠ (Evr.mk 0 "1" "0").bytes := by decide +kernel

end Evr

end Depsolve
