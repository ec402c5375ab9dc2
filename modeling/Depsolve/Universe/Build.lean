import Depsolve.Association
import Depsolve.Glob
import Depsolve.Universe
/-!
# Building a universe

Identifiers go to installed packages first, then to the repositories by
priority, then by record order. One malformed record fails the whole build.
-/
namespace Depsolve

namespace Package

/-- A field that must be there and not be blank. -/
def requiredField (repo : String) (index : Nat) (r : Record) (field : String) :
    Except LoadError String :=
  match (r.get? field).map trim with
  | none | some "" => .error ⟨repo, .missingField index field⟩
  | some value => .ok value

def epochOf (repo name : String) (r : Record) : Except LoadError UInt32 :=
  match (r.get? "epoch").map trim with
  | none | some "" => .ok 0
  | some text =>
    match readUInt32? text.toList with
    | some n => .ok n
    | none => .error ⟨repo, .invalidEpoch name text⟩

def reasonOf (repo name : String) (r : Record) : Except LoadError Reason :=
  match r.get? "reason" with
  | none => .ok .unknown
  | some text =>
    match Reason.parse? text with
    | some reason => .ok reason
    | none => .error ⟨repo, .unknownReason name text⟩

def entries (repo name field : String) : List String → Except LoadError (List Dependency)
  | [] => .ok []
  | s :: rest =>
    match Dependency.parse s with
    | .error e => .error ⟨repo, .badEntry name field e⟩
    | .ok d => (entries repo name field rest).map (d :: ·)

/-- The dependencies of one field, separated by commas. -/
def entriesOf (repo name : String) (r : Record) (field : String) :
    Except LoadError (List Dependency) :=
  match r.get? field with
  | none => .ok []
  | some list => entries repo name field (commaFields list)

def ofRecord (id : PackageId) (repo : Repository) (index : Nat) (r : Record) :
    Except LoadError Package := do
  let name ← requiredField repo.id index r "name"
  let version ← requiredField repo.id index r "version"
  let release ← requiredField repo.id index r "release"
  let arch ← requiredField repo.id index r "arch"
  let epoch ← epochOf repo.id name r
  let reason ← reasonOf repo.id name r
  let evr : Evr := ⟨epoch, version, release⟩
  let provides ← entriesOf repo.id name r "provides"
  let requires ← entriesOf repo.id name r "requires"
  let conflicts ← entriesOf repo.id name r "conflicts"
  let obsoletes ← entriesOf repo.id name r "obsoletes"
  pure {
    id, name, evr, arch
    repo := repo.id
    installed := repo.system
    provides := { name, constraint := some (.eq, evr) } :: provides
    requires, conflicts, obsoletes, reason }

/-- What each field of a package is read from. -/
structure ReadAt (p : Package) (id : PackageId) (repo : Repository) (index : Nat) (r : Record) :
    Prop where
  id_eq : p.id = id
  repo_eq : p.repo = repo.id
  installed : p.installed = repo.system
  name : requiredField repo.id index r "name" = .ok p.name
  version : requiredField repo.id index r "version" = .ok p.evr.version
  release : requiredField repo.id index r "release" = .ok p.evr.release
  arch : requiredField repo.id index r "arch" = .ok p.arch
  epoch : epochOf repo.id p.name r = .ok p.evr.epoch
  reason : reasonOf repo.id p.name r = .ok p.reason
  provides : ∃ ds, entriesOf repo.id p.name r "provides" = .ok ds ∧
    p.provides = p.selfProvide :: ds
  requires : entriesOf repo.id p.name r "requires" = .ok p.requires
  conflicts : entriesOf repo.id p.name r "conflicts" = .ok p.conflicts
  obsoletes : entriesOf repo.id p.name r "obsoletes" = .ok p.obsoletes

end Package

namespace Universe

/-- Installed packages first, then by priority. -/
def repositoryLe (a b : Repository) : Bool :=
  if a.system == b.system then a.priority ≤ b.priority else a.system

/-- The packages of one repository, from the identifier `first` on. -/
def readRecords (repo : Repository) (first : PackageId) :
    Nat → List Record → Except LoadError (List Package)
  | _, [] => .ok []
  | index, r :: rest => do
    let p ← Package.ofRecord (first + index) repo index r
    let ps ← readRecords repo first (index + 1) rest
    pure (p :: ps)

def readRepositories (first : PackageId) :
    List Repository → Except LoadError (List Package)
  | [] => .ok []
  | repo :: rest => do
    let ps ← readRecords repo first 0 repo.records
    let qs ← readRepositories (first + ps.length) rest
    pure (ps ++ qs)

theorem bind_eq_ok {ε α β : Type} {x : Except ε α} {f : α → Except ε β} {b : β}
    (h : (x >>= f) = .ok b) : ∃ a, x = .ok a ∧ f a = .ok b := by
  cases x with
  | error e => cases h
  | ok a => exact ⟨a, rfl, h⟩

theorem ofRecord_eq_ok {id : PackageId} {repo : Repository} {index : Nat} {r : Record}
    {p : Package} : Package.ofRecord id repo index r = .ok p ↔ p.ReadAt id repo index r := by
  constructor
  · intro h
    obtain ⟨name, hname, h⟩ := bind_eq_ok h
    obtain ⟨version, hversion, h⟩ := bind_eq_ok h
    obtain ⟨release, hrelease, h⟩ := bind_eq_ok h
    obtain ⟨arch, harch, h⟩ := bind_eq_ok h
    obtain ⟨epoch, hepoch, h⟩ := bind_eq_ok h
    obtain ⟨reason, hreason, h⟩ := bind_eq_ok h
    obtain ⟨provides, hprovides, h⟩ := bind_eq_ok h
    obtain ⟨requires, hrequires, h⟩ := bind_eq_ok h
    obtain ⟨conflicts, hconflicts, h⟩ := bind_eq_ok h
    obtain ⟨obsoletes, hobsoletes, h⟩ := bind_eq_ok h
    cases h
    exact ⟨rfl, rfl, rfl, hname, hversion, hrelease, harch, hepoch, hreason,
      ⟨provides, hprovides, rfl⟩, hrequires, hconflicts, hobsoletes⟩
  · intro h
    obtain ⟨ds, hds, hprovides⟩ := h.provides
    simp only [Package.ofRecord, h.name, h.version, h.release, h.arch, h.epoch, h.reason, hds,
      h.requires, h.conflicts, h.obsoletes, bind, Except.bind, pure, Except.pure]
    have hself : ({ name := p.name, constraint := some (.eq, p.evr) } : Dependency) :: ds =
        p.provides := hprovides.symm
    rw [hself, ← h.id_eq, ← h.repo_eq, ← h.installed]

theorem ofRecord_id {id : PackageId} {repo : Repository} {index : Nat} {r : Record} {p : Package}
    (h : Package.ofRecord id repo index r = .ok p) : p.id = id := (ofRecord_eq_ok.mp h).id_eq

theorem readRecords_ids {repo : Repository} {first index : Nat} {records : List Record}
    {ps : List Package} (h : readRecords repo first index records = .ok ps) :
    ps.map Package.id = List.range' (first + index) ps.length := by
  induction records generalizing index ps with
  | nil =>
    cases h
    rfl
  | cons r rest ih =>
    obtain ⟨p, hp, h⟩ := bind_eq_ok h
    obtain ⟨qs, hqs, h⟩ := bind_eq_ok h
    cases h
    rw [List.map_cons, List.length_cons, List.range'_succ, ofRecord_id hp, ih hqs]
    rfl

theorem readRepositories_ids {first : Nat} {repos : List Repository} {ps : List Package}
    (h : readRepositories first repos = .ok ps) :
    ps.map Package.id = List.range' first ps.length := by
  induction repos generalizing first ps with
  | nil =>
    cases h
    rfl
  | cons repo rest ih =>
    obtain ⟨ps, hps, h⟩ := bind_eq_ok h
    obtain ⟨qs, hqs, h⟩ := bind_eq_ok h
    cases h
    have hrange : List.range' first (ps.length + qs.length) =
        List.range' first ps.length ++ List.range' (first + ps.length) qs.length := by
      simp
    rw [List.map_append, List.length_append, readRecords_ids hps, ih hqs, hrange]
    rfl

def hidden (packages : List Package) (excludes : List Glob) : List Package :=
  packages.filter fun p => !p.installed && excludes.any (·.accepts p.name)

theorem id_getElem {packages : List Package}
    (ids : packages.map Package.id = List.range packages.length) (i : Nat)
    (hi : i < packages.length) : packages[i].id = i := by
  have h := congrArg (fun l => l[i]?) ids
  simpa [hi] using h

theorem notMem_hidden {packages : List Package} (excludes : List Glob)
    (ids : packages.map Package.id = List.range packages.length) {id : PackageId}
    (h : id ∈ (packages.filter Package.installed).map Package.id) :
    id ∉ (hidden packages excludes).map Package.id := by
  intro hid
  obtain ⟨p, hp, rfl⟩ := List.mem_map.mp h
  obtain ⟨q, hq, hqp⟩ := List.mem_map.mp hid
  obtain ⟨i, hi, hip⟩ := List.getElem_of_mem (List.mem_filter.mp hp).1
  obtain ⟨j, hj, hjq⟩ := List.getElem_of_mem (List.mem_filter.mp hq).1
  rw [← hip, ← hjq, id_getElem ids i hi, id_getElem ids j hj] at hqp
  subst hqp
  have hin : q.installed = true := hjq.symm.trans hip ▸ (List.mem_filter.mp hp).2
  simp [hidden, hin] at hq

/-- Assemble the indexes of packages whose identifiers are their places. -/
def ofPackages (generation : Nat) (packages : List Package)
    (ids : packages.map Package.id = List.range packages.length)
    (repositories : List (String × Int)) (excludes : List Glob) (arch : Option String) :
    Universe where
  generation
  packages := packages.toArray
  nameIndex := NameIndex.ofPackages (fun p => [p.name]) packages
  provideIndex := NameIndex.ofPackages (fun p => p.provides.map Dependency.name) packages
  repositories
  installed := PackageSet.ofIds generation packages.length
    ((packages.filter Package.installed).map Package.id)
  considered := ((hidden packages excludes).map Package.id).foldl PackageSet.remove
    (.full generation packages.length)
  nativeArch := arch
  ids
  nameIndex_eq := rfl
  provideIndex_eq := rfl
  installed_eq := rfl
  considered_generation := PackageSet.foldl_remove_generation ..
  considered_capacity := PackageSet.foldl_remove_capacity ..
  installed_considered := fun id h => by
    rw [PackageSet.mem_ofIds] at h
    exact (PackageSet.mem_foldl_remove ..).2
      ⟨PackageSet.mem_full.2 h.2, notMem_hidden excludes ids h.1⟩

/-- Build a universe. Excludes hide available packages by name. -/
def build (generation : Nat) (repositories : List Repository) (excludes : List String := [])
    (arch : Option String := none) : Except LoadError Universe :=
  let sorted := sortBy repositoryLe repositories
  match h : readRepositories 0 sorted with
  | .error e => .error e
  | .ok packages =>
    let priorities := Association.ofList (sorted.map fun r => (r.id, r.priority))
    .ok (ofPackages generation packages (List.range_eq_range' ▸ readRepositories_ids h) priorities
      (excludes.map Glob.compile) arch)

end Universe

end Depsolve
