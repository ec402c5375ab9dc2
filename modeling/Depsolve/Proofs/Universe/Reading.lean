import Depsolve.Universe.Build
import Mathlib.Data.List.Forall2
/-!
# Reading records

What is wrong with a record can be listed without reading it, in the order in which its
fields are checked. Reading stops at the first fault, of one record as of all records of all
repositories, and where there is none it gives one package for each record.
-/
namespace Depsolve

namespace Record

def requiredFields : List String := ["name", "version", "release", "arch"]

def dependencyFields : List String := ["provides", "requires", "conflicts", "obsoletes"]

/-- A record that can be read as a package. -/
structure WellFormed (r : Record) : Prop where
  required : ∀ field ∈ requiredFields, ∃ text, r.get? field = some text ∧ trim text ≠ ""
  epoch : ∀ text, r.get? "epoch" = some text →
    trim text = "" ∨ ∃ n, readUInt32? (trim text).toList = some n
  entries : ∀ field ∈ dependencyFields, ∀ list, r.get? field = some list →
    ∀ entry ∈ commaFields list, ∃ d, Dependency.parse entry = .ok d
  reason : ∀ text, r.get? "reason" = some text → ∃ reason, Reason.parse? text = some reason

def fieldFaults (index : Nat) (r : Record) (field : String) : List LoadCause :=
  if (r.get? field).any fun text => trim text != "" then [] else [.missingField index field]

def epochFaults (name : String) (r : Record) : List LoadCause :=
  (((r.get? "epoch").map trim).toList.filter fun text =>
    text != "" && (readUInt32? text.toList).isNone).map (.invalidEpoch name)

def reasonFaults (name : String) (r : Record) : List LoadCause :=
  ((r.get? "reason").toList.filter fun text => (Reason.parse? text).isNone).map
    (.unknownReason name)

/-- What is wrong with one entry of a dependency field. -/
def entryFault? (name field entry : String) : Option LoadCause :=
  match Dependency.parse entry with
  | .error e => some (.badEntry name field e)
  | .ok _ => none

def entryFaults (name : String) (r : Record) (field : String) : List LoadCause :=
  ((r.get? field).toList.flatMap commaFields).filterMap (entryFault? name field)

/-- Everything that is wrong with a record, in the order in which it is checked. -/
def faults (index : Nat) (r : Record) : List LoadCause :=
  let name := ((r.get? "name").map trim).getD ""
  requiredFields.flatMap (r.fieldFaults index) ++ r.epochFaults name ++ r.reasonFaults name ++
    dependencyFields.flatMap (r.entryFaults name)

variable {r : Record} {index : Nat} {name field : String}

theorem fieldFaults_eq_nil :
    r.fieldFaults index field = [] ↔ ∃ text, r.get? field = some text ∧ trim text ≠ "" := by
  rw [fieldFaults]
  cases r.get? field <;> simp

theorem epochFaults_eq_nil : r.epochFaults name = [] ↔
    ∀ text, r.get? "epoch" = some text →
      trim text = "" ∨ ∃ n, readUInt32? (trim text).toList = some n := by
  simp only [epochFaults, List.map_eq_nil_iff, List.filter_eq_nil_iff, Option.mem_toList,
    Option.map_eq_some_iff, Bool.and_eq_true, bne_iff_ne, Option.isNone_iff_eq_none, not_and]
  constructor
  · intro h text htext
    refine or_iff_not_imp_left.mpr fun hne => Option.ne_none_iff_exists'.mp ?_
    exact h (trim text) ⟨text, htext, rfl⟩ hne
  · rintro h _ ⟨text, htext, rfl⟩ hne
    exact Option.ne_none_iff_exists'.mpr ((h text htext).resolve_left hne)

theorem reasonFaults_eq_nil : r.reasonFaults name = [] ↔
    ∀ text, r.get? "reason" = some text → ∃ reason, Reason.parse? text = some reason := by
  simp only [reasonFaults, List.map_eq_nil_iff, List.filter_eq_nil_iff, Option.mem_toList,
    Option.isNone_iff_eq_none, ← ne_eq, Option.ne_none_iff_exists']

theorem entryFault?_eq_none {entry : String} :
    entryFault? name field entry = none ↔ ∃ d, Dependency.parse entry = .ok d := by
  rw [entryFault?]
  split <;> simp [*]

theorem entryFaults_eq_nil : r.entryFaults name field = [] ↔
    ∀ list, r.get? field = some list →
      ∀ entry ∈ commaFields list, ∃ d, Dependency.parse entry = .ok d := by
  simp only [entryFaults, List.filterMap_eq_nil_iff, List.mem_flatMap, Option.mem_toList,
    entryFault?_eq_none]
  exact ⟨fun h list hlist entry he => h entry ⟨list, hlist, he⟩,
    fun h entry ⟨list, hlist, he⟩ => h list hlist entry he⟩

theorem faults_eq_nil : r.faults index = [] ↔ r.WellFormed := by
  simp only [faults, List.append_eq_nil_iff, List.flatMap_eq_nil_iff, fieldFaults_eq_nil,
    epochFaults_eq_nil, reasonFaults_eq_nil, entryFaults_eq_nil]
  constructor
  · rintro ⟨⟨⟨hrequired, hepoch⟩, hreason⟩, hentries⟩
    exact ⟨hrequired, hepoch, hentries, hreason⟩
  · rintro ⟨hrequired, hepoch, hentries, hreason⟩
    exact ⟨⟨⟨hrequired, hepoch⟩, hreason⟩, hentries⟩

end Record

/-- A reading that goes through where there are no faults, and else fails with the first one. -/
def StopsAt {α : Type} (faults : List LoadError) : Except LoadError α → Prop
  | .ok _ => faults = []
  | .error e => faults.head? = some e

namespace StopsAt

variable {α β : Type} {fs gs : List LoadError} {x : Except LoadError α}

theorem error_iff (h : StopsAt fs x) (e : LoadError) : x = .error e ↔ fs.head? = some e := by
  cases x with
  | ok a => simp [show fs = [] from h]
  | error e' => rw [show fs.head? = some e' from h, Except.error.injEq, Option.some.injEq]

theorem exists_ok_iff (h : StopsAt fs x) : (∃ a, x = .ok a) ↔ fs = [] := by
  cases x with
  | ok a => exact iff_of_true ⟨a, rfl⟩ h
  | error e =>
    refine iff_of_false nofun fun hnil => ?_
    rw [hnil] at h
    cases h

theorem bind {f : α → Except LoadError β} (hx : StopsAt fs x)
    (hf : ∀ a, x = .ok a → StopsAt gs (f a)) : StopsAt (fs ++ gs) (x >>= f) := by
  cases x with
  | ok a =>
    rw [show fs = [] from hx]
    exact hf a rfl
  | error e =>
    show (fs ++ gs).head? = some e
    rw [List.head?_append, show fs.head? = some e from hx, Option.some_or]

theorem pure (a : α) : StopsAt [] (Pure.pure a : Except LoadError α) := rfl

theorem map {g : α → β} (hx : StopsAt fs x) : StopsAt fs (x.map g) := by
  cases x with
  | ok a => exact hx
  | error e => exact hx

end StopsAt

namespace Package

variable {repo name field : String} {index : Nat} {r : Record}

theorem requiredField_stopsAt :
    StopsAt ((r.fieldFaults index field).map (⟨repo, ·⟩)) (requiredField repo index r field) := by
  rw [requiredField, Record.fieldFaults]
  cases r.get? field with
  | none => rfl
  | some text =>
    by_cases h : trim text = ""
    · simp [h, StopsAt]
    · simp [h, StopsAt]

theorem epochOf_stopsAt :
    StopsAt ((r.epochFaults name).map (⟨repo, ·⟩)) (epochOf repo name r) := by
  rw [epochOf, Record.epochFaults]
  cases r.get? "epoch" with
  | none => rfl
  | some text =>
    by_cases h : trim text = ""
    · simp [h, StopsAt]
    · cases hn : readUInt32? (trim text).toList <;> simp [h, hn, StopsAt]

theorem reasonOf_stopsAt :
    StopsAt ((r.reasonFaults name).map (⟨repo, ·⟩)) (reasonOf repo name r) := by
  rw [reasonOf, Record.reasonFaults]
  cases r.get? "reason" with
  | none => rfl
  | some text => cases hreason : Reason.parse? text <;> simp [hreason, StopsAt]

theorem entries_stopsAt (list : List String) :
    StopsAt ((list.filterMap (Record.entryFault? name field)).map (⟨repo, ·⟩))
      (entries repo name field list) := by
  induction list with
  | nil => rfl
  | cons entry rest ih =>
    rw [entries, List.filterMap_cons, Record.entryFault?]
    cases Dependency.parse entry with
    | error e => rfl
    | ok d => exact ih.map

theorem entriesOf_stopsAt :
    StopsAt ((r.entryFaults name field).map (⟨repo, ·⟩)) (entriesOf repo name r field) := by
  rw [entriesOf, Record.entryFaults]
  cases r.get? field with
  | none => rfl
  | some list => simpa using entries_stopsAt (commaFields list)

theorem name_of_requiredField (h : requiredField repo index r field = .ok name) :
    ((r.get? field).map trim).getD "" = name := by
  rw [requiredField] at h
  split at h
  · cases h
  · cases h
  · next hfield =>
    cases h
    rw [hfield, Option.getD_some]

/-- Reading a record stops at the first fault of the record. -/
theorem ofRecord_stopsAt (id : PackageId) (repo : Repository) :
    StopsAt ((r.faults index).map (⟨repo.id, ·⟩)) (ofRecord id repo index r) := by
  simp only [Record.faults, Record.requiredFields, Record.dependencyFields, List.flatMap_cons,
    List.flatMap_nil, List.append_nil, List.append_assoc, List.map_append]
  refine requiredField_stopsAt.bind fun name hname => ?_
  rw [name_of_requiredField hname]
  refine requiredField_stopsAt.bind fun version _ => ?_
  refine requiredField_stopsAt.bind fun release _ => ?_
  refine requiredField_stopsAt.bind fun arch _ => ?_
  refine epochOf_stopsAt.bind fun epoch _ => ?_
  refine reasonOf_stopsAt.bind fun reason _ => ?_
  refine entriesOf_stopsAt.bind fun provides _ => ?_
  refine entriesOf_stopsAt.bind fun requires _ => ?_
  refine entriesOf_stopsAt.bind fun conflicts _ => ?_
  rw [← List.append_nil (List.map _ (r.entryFaults name "obsoletes"))]
  exact entriesOf_stopsAt.bind fun obsoletes _ => .pure _

end Package

/-- A record with its repository and its place in it. -/
structure Entry where
  repo : Repository
  index : Nat
  record : Record

namespace Entry

def read (e : Entry) (id : PackageId) : Except LoadError Package :=
  Package.ofRecord id e.repo e.index e.record

theorem read_eq_ok {e : Entry} {id : PackageId} {p : Package} :
    e.read id = .ok p ↔ p.ReadAt id e.repo e.index e.record := Universe.ofRecord_eq_ok

def faults (e : Entry) : List LoadError := (e.record.faults e.index).map (⟨e.repo.id, ·⟩)

theorem faults_eq_nil {e : Entry} : e.faults = [] ↔ e.record.WellFormed := by
  rw [faults, List.map_eq_nil_iff, Record.faults_eq_nil]

end Entry

def Repository.entries (repo : Repository) : List Entry :=
  repo.records.zipIdx.map fun r => ⟨repo, r.2, r.1⟩

/-- The records of repositories, one repository after the other. -/
def Entry.ofRepositories (repositories : List Repository) : List Entry :=
  repositories.flatMap Repository.entries

theorem Entry.forall_ofRepositories {repositories : List Repository} {P : Record → Prop} :
    (∀ e ∈ Entry.ofRepositories repositories, P e.record) ↔
      ∀ repo ∈ repositories, ∀ r ∈ repo.records, P r := by
  have hone : ∀ repo : Repository, (∀ e ∈ repo.entries, P e.record) ↔ ∀ r ∈ repo.records, P r := by
    intro repo
    rw [Repository.entries, List.forall_mem_map]
    conv_rhs => rw [← List.zipIdx_map_fst 0 repo.records, List.forall_mem_map]
  simp only [Entry.ofRepositories, List.forall_mem_flatMap, hone]

namespace Universe

/-- A package that was read from a record, under its own identifier. -/
def ReadAs (e : Entry) (p : Package) : Prop := e.read p.id = .ok p

theorem readRecords_stopsAt {repo : Repository} {first index : Nat} {records : List Record} :
    StopsAt (((records.zipIdx index).map fun r => (⟨repo, r.2, r.1⟩ : Entry)).flatMap Entry.faults)
      (readRecords repo first index records) := by
  induction records generalizing index with
  | nil => rfl
  | cons r rest ih =>
    rw [List.zipIdx_cons, List.map_cons, List.flatMap_cons]
    refine (Package.ofRecord_stopsAt (first + index) repo).bind fun p _ => ?_
    rw [← List.append_nil (List.flatMap _ _)]
    exact ih.bind fun ps _ => .pure _

theorem readRepositories_stopsAt {first : Nat} {repositories : List Repository} :
    StopsAt ((Entry.ofRepositories repositories).flatMap Entry.faults)
      (readRepositories first repositories) := by
  induction repositories generalizing first with
  | nil => rfl
  | cons repo rest ih =>
    rw [Entry.ofRepositories, List.flatMap_cons, List.flatMap_append]
    refine readRecords_stopsAt.bind fun ps _ => ?_
    rw [← List.append_nil (List.flatMap Entry.faults _)]
    exact ih.bind fun qs _ => .pure _

theorem readRecords_readAs {repo : Repository} {first index : Nat} {records : List Record}
    {ps : List Package} (h : readRecords repo first index records = .ok ps) :
    List.Forall₂ ReadAs ((records.zipIdx index).map fun r => ⟨repo, r.2, r.1⟩) ps := by
  induction records generalizing index ps with
  | nil =>
    cases h
    exact .nil
  | cons r rest ih =>
    obtain ⟨p, hp, h⟩ := bind_eq_ok h
    obtain ⟨qs, hqs, h⟩ := bind_eq_ok h
    cases h
    rw [List.zipIdx_cons, List.map_cons]
    refine .cons ?_ (ih hqs)
    rw [ReadAs, Entry.read, ofRecord_id hp]
    exact hp

theorem readRepositories_readAs {first : Nat} {repositories : List Repository}
    {ps : List Package} (h : readRepositories first repositories = .ok ps) :
    List.Forall₂ ReadAs (Entry.ofRepositories repositories) ps := by
  induction repositories generalizing first ps with
  | nil =>
    cases h
    exact .nil
  | cons repo rest ih =>
    obtain ⟨ps, hps, h⟩ := bind_eq_ok h
    obtain ⟨qs, hqs, h⟩ := bind_eq_ok h
    cases h
    rw [Entry.ofRepositories, List.flatMap_cons]
    exact List.rel_append (readRecords_readAs hps) (ih hqs)

end Universe

end Depsolve
