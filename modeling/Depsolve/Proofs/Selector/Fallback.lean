import Depsolve.Proofs.Dependency.Grammar
import Depsolve.Proofs.Query.Composition
import Depsolve.Selector
import Mathlib.Data.List.TakeWhile
/-!
# Selecting a provider where nothing has the name

A selector by name looks among the packages that its architecture, repository and version
admit. Where none of them has the name it takes the providers of its fallback, and these, too,
only among the packages that are admitted. So the bound of a dependency expression is put to
the provide and to the provider alike.
-/
namespace Depsolve

namespace Selector

section Resolve

variable {u : Universe} {s : Selector} {m : NameMatch} {id : PackageId}

/-- What the architecture, the repository and the version of a selector ask of a package. -/
def Admits (s : Selector) (p : Package) : Prop :=
  (∀ arch ∈ s.arch, p.arch = arch) ∧ (∀ repo ∈ s.repo, p.repo = repo) ∧
    ∀ bound ∈ s.evr, bound.1.accepts (p.evr.compareForMatch bound.2) = true

/-- The same as steps of a query. -/
def baseSteps (s : Selector) : List Query.Step :=
  (s.arch.map fun arch => .one (.arch [arch])).toList ++
    (s.repo.map fun repo => .one (.repo [repo])).toList ++
    (s.evr.map fun bound => .one (.evr bound.1 bound.2)).toList

theorem base_eq_run (s : Selector) (u : Universe) :
    s.base u = (Query.considered u).run s.baseSteps := by
  obtain ⟨-, -, -, -, evr, arch, repo, -⟩ := s
  cases arch <;> cases repo <;> cases evr <;> rfl

theorem accepts_baseSteps {p : Package} :
    (∀ step ∈ s.baseSteps, step.Accepts u p) ↔ s.Admits p := by
  obtain ⟨-, -, -, -, evr, arch, repo, -⟩ := s
  cases arch <;> cases repo <;> cases evr <;>
    simp [Admits, baseSteps, Query.Step.Accepts, Query.Step.filters, Filter.accepts]

@[simp] theorem base_pool (s : Selector) (u : Universe) : (s.base u).pool = u := by
  rw [base_eq_run, Query.run_pool]
  rfl

theorem mem_base : id ∈ (s.base u).result ↔ id ∈ u.considered ∧ s.Admits (u.get id) := by
  have hsteps : ∀ step ∈ s.baseSteps, step.LooksAtOne := by
    simp only [baseSteps, List.mem_append, Option.mem_toList, Option.map_eq_some_iff]
    rintro step ((⟨arch, -, rfl⟩ | ⟨repo, -, rfl⟩) | ⟨bound, -, rfl⟩) <;>
      simp [Query.Step.LooksAtOne, Query.Step.filters, Filter.LooksAtOne]
  rw [base_eq_run, Query.mem_run hsteps, ← accepts_baseSteps]
  rfl

theorem mem_base_name : id ∈ ((s.base u).filter (.name m)).result ↔
    (id ∈ u.considered ∧ s.Admits (u.get id)) ∧ m.accepts (u.get id).name = true := by
  rw [Query.mem_filter (by simp [Filter.LooksAtOne]), mem_base, base_pool, Filter.accepts]

theorem mem_base_provides {d : Dependency} :
    id ∈ ((s.base u).filter (.provides d)).result ↔
      (id ∈ u.considered ∧ s.Admits (u.get id)) ∧ (u.get id).providesDep d = true := by
  rw [Query.mem_filter (by simp [Filter.LooksAtOne]), mem_base, base_pool, Filter.accepts]

theorem notMem_nothing (q : Query) : id ∉ q.nothing.result := by
  rw [Query.nothing, Query.mem_filter (by simp [Filter.LooksAtOne])]
  rintro ⟨-, hin⟩
  exact PackageSet.not_mem_empty _ _ _ hin

/-- Some package that the selector admits has a name that fits. -/
def Finds (s : Selector) (u : Universe) (m : NameMatch) : Prop :=
  ∃ id ∈ u.considered, s.Admits (u.get id) ∧ m.accepts (u.get id).name = true

theorem isEmpty_base_name :
    ((s.base u).filter (.name m)).result.isEmpty = true ↔ ¬s.Finds u m := by
  rw [PackageSet.isEmpty_iff]
  simp only [mem_base_name, Finds, not_exists, not_and, and_imp]

/-- A selector by name selects what it admits and has the name, or, where there is no such
package, what it admits and provides the fallback. -/
theorem mem_resolve_of_name (hpattern : s.pattern = none) (hname : s.name = some m) :
    id ∈ s.resolve u ↔ id ∈ u.considered ∧ s.Admits (u.get id) ∧
      (m.accepts (u.get id).name = true ∨
        ¬s.Finds u m ∧ ∃ d, s.fallback = some d ∧ (u.get id).providesDep d = true) := by
  have hqueries : s.namedQueries (s.base u) = [(s.base u).filter (.name m)] := by
    simp only [namedQueries, hpattern, hname]
  simp only [resolve, query, hpattern, hname, hqueries, firstNonempty?, List.find?_cons,
    List.find?_nil]
  cases hempty : ((s.base u).filter (.name m)).result.isEmpty with
  | false =>
    have hfinds : s.Finds u m := by
      by_contra hnone
      exact absurd (isEmpty_base_name.mpr hnone) (by simp [hempty])
    simp [mem_base_name, hfinds, and_assoc]
  | true =>
    have hnone := isEmpty_base_name.mp hempty
    have hunnamed : id ∈ u.considered → s.Admits (u.get id) →
        ¬m.accepts (u.get id).name = true :=
      fun hid hadmits hnamed => hnone ⟨id, hid, hadmits, hnamed⟩
    cases hfallback : s.fallback with
    | none =>
      refine iff_of_false (notMem_nothing _) ?_
      rintro ⟨hid, hadmits, hnamed | ⟨-, d, hd, -⟩⟩
      · exact hunnamed hid hadmits hnamed
      · cases hd
    | some d =>
      constructor
      · intro h
        obtain ⟨⟨hid, hadmits⟩, hprovides⟩ := mem_base_provides.mp h
        exact ⟨hid, hadmits, .inr ⟨hnone, d, rfl, hprovides⟩⟩
      · rintro ⟨hid, hadmits, hnamed | ⟨-, d, hd, hprovides⟩⟩
        · exact absurd hnamed (hunnamed hid hadmits)
        · cases hd
          exact mem_base_provides.mpr ⟨⟨hid, hadmits⟩, hprovides⟩

end Resolve

section Expression

variable {u : Universe} {text : String} {d : Dependency} {id : PackageId}

/-- What a dependency expression without special characters in its name stands for. -/
def ofExpression (d : Dependency) : Selector where
  name := some (.exact d.name)
  nameText := some d.name
  evr := d.constraint
  fallback := some d

theorem admits_ofExpression {p : Package} :
    (ofExpression d).Admits p ↔ d.matchesEvr p.evr = true := by
  obtain ⟨name, constraint⟩ := d
  cases constraint <;> simp [ofExpression, Admits, Dependency.matchesEvr]

/-- Where the name is no package's, the bound is put to the package and to its provide. -/
theorem mem_resolve_ofExpression (hname : ∀ id ∈ u.considered, (u.get id).name ≠ d.name) :
    id ∈ (ofExpression d).resolve u ↔ id ∈ u.considered ∧ (u.get id).providesDep d = true ∧
      d.matchesEvr (u.get id).evr = true := by
  have hunnamed : ∀ id ∈ u.considered,
      ¬(NameMatch.exact d.name).accepts (u.get id).name = true := by
    intro id hid hnamed
    exact hname id hid (beq_iff_eq.mp hnamed).symm
  have hfinds : ¬(ofExpression d).Finds u (.exact d.name) :=
    fun ⟨id, hid, _, hnamed⟩ => hunnamed id hid hnamed
  rw [mem_resolve_of_name rfl rfl, admits_ofExpression]
  constructor
  · rintro ⟨hid, hbound, hnamed | ⟨-, other, hother, hprovides⟩⟩
    · exact absurd hnamed (hunnamed id hid)
    · cases Option.some.inj hother
      exact ⟨hid, hprovides, hbound⟩
  · rintro ⟨hid, hprovides, hbound⟩
    exact ⟨hid, hbound, .inr ⟨hfinds, d, rfl, hprovides⟩⟩

theorem isExpressionChar_eq (c : Char) : isExpressionChar c = !Dependency.isNameChar c := by
  simp only [isExpressionChar, Dependency.isNameChar, bne, Bool.not_and, Bool.not_not]
  cases isBlank c <;> simp

theorem trimChars_trimChars (cs : List Char) : trimChars (trimChars cs) = trimChars cs :=
  trimChars_eq_self (head?_trimChars cs) (getLast?_trimRight (cs.dropWhile isBlank))

theorem parse_of_bounded (hparse : Dependency.parse text = .ok d)
    (hbound : d.constraint.isSome = true) (hglob : isGlob d.name = false) :
    Selector.parse text = .ok (ofExpression d) := by
  obtain ⟨way, hway, hd⟩ := Dependency.exists_way_of_parse hparse
  have hwritten := Dependency.written_of_mem_ways hway hd
  have htrim : (trim text).toList = trimChars text.toList := String.toList_ofList
  have hagain : Dependency.parse (trim text) = .ok d := by
    apply Dependency.parse_of_written
    rwa [htrim, trimChars_trimChars]
  obtain ⟨hsome, -, hrest⟩ := hwritten
  obtain ⟨⟨c, bound⟩, hconstraint⟩ := Option.isSome_iff_exists.mp hbound
  rw [hconstraint] at hrest
  obtain ⟨gap, op, space, word, hrest, htext⟩ := hrest
  have hne : trim text ≠ "" := by
    intro hempty
    rw [hempty] at htrim
    simp [← htrim] at hsome
  have hexpression : (trim text).toList.any isExpressionChar = true := by
    by_contra hplain
    have hname : ∀ x ∈ trimChars text.toList, Dependency.isNameChar x = true := by
      simpa [isExpressionChar_eq, htrim] using hplain
    rw [List.dropWhile_eq_nil_iff.mpr hname] at hrest
    have hop := (Dependency.isOperatorChar_of_spelling htext.op_spelling).1
    simp [hop] at hrest
  simp [Selector.parse, hne, hexpression, hagain, hglob, NameMatch.ofPattern, ofExpression]

end Expression

/-- A bounded expression whose name no package has selects the packages that provide it and
are themselves within the bound. They are all of its providers just where every provider is. -/
theorem expression_selects_providers {u : Universe} {text : String} {d : Dependency}
    (hparse : Dependency.parse text = .ok d) (hbound : d.constraint.isSome = true)
    (hglob : isGlob d.name = false) (hname : ∀ id ∈ u.considered, (u.get id).name ≠ d.name) :
    ∃ s, Selector.parse text = .ok s ∧
      (∀ id, id ∈ s.resolve u ↔ id ∈ u.considered ∧ (u.get id).providesDep d = true ∧
        d.matchesEvr (u.get id).evr = true) ∧
      ((∀ id, id ∈ s.resolve u ↔ id ∈ u.considered ∧ (u.get id).providesDep d = true) ↔
        ∀ id ∈ u.considered, (u.get id).providesDep d = true →
          d.matchesEvr (u.get id).evr = true) := by
  have hresolve : ∀ id, id ∈ (ofExpression d).resolve u ↔ id ∈ u.considered ∧
      (u.get id).providesDep d = true ∧ d.matchesEvr (u.get id).evr = true :=
    fun id => mem_resolve_ofExpression hname
  refine ⟨ofExpression d, parse_of_bounded hparse hbound hglob, hresolve, ?_⟩
  simp only [hresolve, and_congr_right_iff, and_iff_left_iff_imp]

/-- Two servers provide one capability in the same version, and only one of them has a version
of its own that is as high. -/
def mailServers : Universe :=
  Universe.sample [] [.noarch "postfix" "25" [("provides", "smtp = 25")],
    .noarch "exim" "4" [("provides", "smtp = 25")]] (by decide +kernel)

def smtpSince10 : Dependency := ⟨"smtp", some (.ge, ⟨0, "10", ""⟩)⟩

theorem parse_smtpSince10 : Dependency.parse "smtp >= 10" = .ok smtpSince10 :=
  eq_ok_of_toOption (by decide +kernel)

theorem mailServers_name_ne :
    ∀ id ∈ mailServers.considered, (mailServers.get id).name ≠ smtpSince10.name := by
  have hall : ∀ id ∈ mailServers.considered.toList,
      (mailServers.get id).name ≠ smtpSince10.name := by decide +kernel
  exact fun id hid => hall id (PackageSet.mem_toList.mpr hid)

theorem mailServers_selected :
    Dependency.parse "smtp >= 10" = .ok smtpSince10 ∧
      smtpSince10.constraint.isSome = true ∧ isGlob smtpSince10.name = false ∧
      (∀ id ∈ mailServers.considered, (mailServers.get id).name ≠ smtpSince10.name) ∧
      ∃ s, Selector.parse "smtp >= 10" = .ok s ∧ 0 ∈ s.resolve mailServers ∧
        1 ∉ s.resolve mailServers := by
  obtain ⟨s, hs, hresolve, -⟩ :=
    expression_selects_providers parse_smtpSince10 rfl (by decide) mailServers_name_ne
  refine ⟨parse_smtpSince10, rfl, by decide, mailServers_name_ne, s, hs, ?_, ?_⟩
  · rw [hresolve]
    decide +kernel
  · rw [hresolve]
    decide +kernel

/-- Not all providers are selected: one of them is itself below the bound. -/
theorem mailServers_passed_over :
    Dependency.parse "smtp >= 10" = .ok smtpSince10 ∧
      (∀ id ∈ mailServers.considered, (mailServers.get id).name ≠ smtpSince10.name) ∧
      ¬∃ s, Selector.parse "smtp >= 10" = .ok s ∧ ∀ id, id ∈ s.resolve mailServers ↔
        id ∈ mailServers.considered ∧ (mailServers.get id).providesDep smtpSince10 = true := by
  refine ⟨parse_smtpSince10, mailServers_name_ne, ?_⟩
  rintro ⟨s, hs, hresolve⟩
  have hselector : (Selector.parse "smtp >= 10").toOption = some (ofExpression smtpSince10) := by
    decide +kernel
  rw [hs] at hselector
  cases hselector
  exact absurd ((hresolve 1).mpr (by decide +kernel)) (by decide +kernel)

end Selector

end Depsolve
