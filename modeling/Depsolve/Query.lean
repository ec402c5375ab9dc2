import Depsolve.Glob
import Depsolve.Nevra
import Depsolve.Universe
/-!
# Queries

A query narrows a package set step by step. Most filters look at one package at
a time; two of them keep the winners of each family of one name and
architecture. Nothing here fails: an empty result is an answer.
-/
namespace Depsolve

/-- A text with special characters is a pattern, any other is compared as it stands. -/
def globOrEqual (pattern value : String) : Bool := (NameMatch.ofPattern pattern).accepts value

def Nevra.accepts (n : Nevra) (p : Package) : Bool :=
  globOrEqual n.name p.name &&
    n.epoch.all (· == p.evr.epoch) &&
    n.version.all (globOrEqual · p.evr.version) &&
    n.release.all (globOrEqual · p.evr.release) &&
    n.arch.all (globOrEqual · p.arch)

inductive Filter where
  | name (m : NameMatch)
  /-- The written identity, with or without an epoch of zero. -/
  | nevra (text : String)
  | parts (n : Nevra)
  | epoch (n : UInt32)
  | version (text : String)
  | release (text : String)
  | evr (c : Comparison) (bound : Evr)
  | arch (arches : List String)
  | repo (repos : List String)
  | installed (flag : Bool)
  | provides (d : Dependency)
  | requires (d : Dependency)
  | conflicts (d : Dependency)
  | obsoletes (d : Dependency)
  | ids (set : PackageSet)
  /-- Available packages newer than every installed one of their name and architecture. -/
  | upgrades
  /-- Available packages older than every installed one of their name and architecture. -/
  | downgrades
  /-- The highest builds of each name and architecture. -/
  | latest
  /-- Installed packages, and of each name and architecture the best repository. -/
  | priority
deriving DecidableEq

/-- Whether a package is available and compares as `wanted` with every installed package of
its family, of which there is one. -/
def Universe.relativeToInstalled (u : Universe) (p : Package) (wanted : Ordering) : Bool :=
  let family := ((u.installedByName p.name).map u.get).filter fun q => q.sameArchFamily p
  !p.installed && !family.isEmpty && family.all fun q => p.evr.compare q.evr == wanted

/-- The filters that look at one package. -/
def Filter.accepts (u : Universe) (p : Package) : Filter → Bool
  | .name m => m.accepts p.name
  | .nevra text => text == p.nevra || text == p.fullNevra
  | .parts n => n.accepts p
  | .epoch n => p.evr.epoch == n
  | .version text => p.evr.version == text
  | .release text => p.evr.release == text
  | .evr c bound => c.accepts (p.evr.compareForMatch bound)
  | .arch arches => arches.contains p.arch
  | .repo repos => repos.contains p.repo
  | .installed flag => p.installed == flag
  | .provides d => p.providesDep d
  | .requires d => p.requires.any fun r => r.overlaps d
  | .conflicts d => p.conflicts.any fun c => c.overlaps d
  | .obsoletes d => p.obsoletes.any fun o => o.overlaps d
  | .upgrades => u.relativeToInstalled p .gt
  | .downgrades => u.relativeToInstalled p .lt
  | .ids set => set.contains p.id
  | .latest | .priority => true

def Package.family (p : Package) : String × String := (p.name, p.arch)

/-- The best builds seen so far, by family; builds of one list are equally good. -/
abbrev Leaders := List ((String × String) × List Package)

/-- A better build replaces the leaders of its family, an equal one joins them. -/
def Leaders.add (p : Package) : Leaders → Leaders
  | [] => [(p.family, [p])]
  | (family, best) :: rest =>
    if family = p.family then
      match best with
      | [] => (family, [p]) :: rest
      | q :: _ =>
        match p.evr.compare q.evr with
        | .gt => (family, [p]) :: rest
        | .eq => (family, best ++ [p]) :: rest
        | .lt => (family, best) :: rest
    else (family, best) :: Leaders.add p rest

/-- The lowest priority number seen so far, by family. -/
abbrev BestPriorities := List ((String × String) × Int)

def BestPriorities.add (family : String × String) (priority : Int) :
    BestPriorities → BestPriorities
  | [] => [(family, priority)]
  | (f, best) :: rest =>
    if f = family then (f, min best priority) :: rest
    else (f, best) :: BestPriorities.add family priority rest

structure Query where
  pool : Universe
  result : PackageSet
  filters : List Filter := []

namespace Query

def considered (u : Universe) : Query := { pool := u, result := u.considered }

def all (u : Universe) : Query := { pool := u, result := u.fullSet }

def ofSet (u : Universe) (set : PackageSet) : Except UniverseMismatch Query := do
  u.fullSet.check set
  pure { pool := u, result := set }

/-- The packages that no other of their family surpasses. -/
def keepLatest (u : Universe) (base : PackageSet) : PackageSet :=
  let leaders : Leaders := base.toList.foldl (fun done id => done.add (u.get id)) []
  PackageSet.ofIds base.generation base.capacity
    (leaders.flatMap fun family => family.2.map Package.id)

/-- The installed packages, and those from the best repository of their family. -/
def keepPriority (u : Universe) (base : PackageSet) : PackageSet :=
  let available := (base.toList.map u.get).filter (!·.installed)
  let best : BestPriorities :=
    available.foldl (fun done p => done.add p.family (u.repoPriority p.repo)) []
  base.filter fun id =>
    let p := u.get id
    p.installed || (best.lookup p.family).all fun least => u.repoPriority p.repo ≤ least

def apply (u : Universe) (f : Filter) (base : PackageSet) : PackageSet :=
  match f with
  | .latest => keepLatest u base
  | .priority => keepPriority u base
  | f => base.filter fun id => f.accepts u (u.get id)

def filter (q : Query) (f : Filter) : Query :=
  { q with result := apply q.pool f q.result, filters := q.filters ++ [f] }

def filterAny (q : Query) (fs : List Filter) : Query :=
  let kept := fs.map fun f => apply q.pool f q.result
  { q with
    result := q.result.filter fun id => kept.any (·.contains id)
    filters := q.filters ++ fs }

def ids (q : Query) (set : PackageSet) : Except UniverseMismatch Query := do
  q.result.check set
  pure (q.filter (.ids set))

def nothing (q : Query) : Query := q.filter (.ids q.pool.emptySet)

def sorted (q : Query) : List PackageId := sortCmp q.pool.comparePackages q.result.toList

end Query

end Depsolve
