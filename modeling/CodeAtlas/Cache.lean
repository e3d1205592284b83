import CodeAtlas.Repository
import CodeAtlas.Tree.Fingerprint

/-!
# The cache of analyses

Finished analyses are kept under their root and the fingerprint of the scan. A file that changes changes the
fingerprint, so that an analysis is never found after it; it is dropped when other keys have been used more
recently.
-/

namespace CodeAtlas

open CodeAtlas.Tree

/-! ## Maps that forget -/

/-- A map that keeps the keys that were used most recently. -/
structure RecentMap (κ α : Type) where
  capacity : Nat
  /-- The entries, the most recently used one first. -/
  entries : List (κ × α) := []

namespace RecentMap

variable {κ α : Type} [BEq κ]

def size (m : RecentMap κ α) : Nat := m.entries.length

def isEmpty (m : RecentMap κ α) : Bool := m.entries.isEmpty

/-- The entries under other keys. -/
def others (m : RecentMap κ α) (key : κ) : List (κ × α) := m.entries.filter fun e => !(e.1 == key)

/-- The value under a key, which becomes the most recent one. -/
def get? (m : RecentMap κ α) (key : κ) : Option (α × RecentMap κ α) :=
  (m.entries.lookup key).map fun a => (a, { m with entries := (key, a) :: m.others key })

/-- Put a value under a key, which becomes the most recent one. If there are too many keys, the least recent one
is forgotten. -/
def put (m : RecentMap κ α) (key : κ) (a : α) : RecentMap κ α :=
  { m with entries := ((key, a) :: m.others key).take m.capacity }

def clear (m : RecentMap κ α) : RecentMap κ α := { m with entries := [] }

end RecentMap

/-! ## Analyses -/

/-- What an analysis is kept under. -/
structure CacheKey where
  root : Path
  fingerprint : UInt64
  deriving DecidableEq, Repr, Inhabited

/-- An analysis with its number in the order in which analyses were made. -/
structure Computed where
  number : Nat
  analysis : Analysis

/-- The kept analyses, and how many have been made. -/
structure AnalysisCache where
  kept : RecentMap CacheKey Computed
  made : Nat := 0

namespace AnalysisCache

/-- An empty cache. It has room for at least one analysis. -/
def new (s : CacheSettings) : AnalysisCache := ⟨{ capacity := max 1 s.maxEntries }, 0⟩

def clear (c : AnalysisCache) : AnalysisCache := { c with kept := c.kept.clear }

/-- Keep an analysis that was just made. -/
def insert (c : AnalysisCache) (key : CacheKey) (a : Analysis) : Computed × AnalysisCache :=
  let made : Computed := ⟨c.made, a⟩
  (made, ⟨c.kept.put key made, c.made + 1⟩)

/-- The analysis of a scan of a root : the kept one, or a new one. -/
def getOrAnalyzeScanned (c : AnalysisCache) (t : Tree) (root : Path) (files : List ScannedFile) :
    Computed × AnalysisCache :=
  let key : CacheKey := ⟨root, fingerprint files⟩
  match c.kept.get? key with
  | some (found, kept) => (found, { c with kept })
  | none => c.insert key (analyzeScanned t root files)

/-- The analysis of the directory to which an absolute path leads. The directory is always scanned. If there
is none, the cache stays as it is. -/
def getOrAnalyze (c : AnalysisCache) (t : Tree) (s : ScanSettings) (path : Path) :
    Except RootError Computed × AnalysisCache :=
  match t.rootPlace path path with
  | .error e => (.error e, c)
  | .ok place =>
    let (found, c) := c.getOrAnalyzeScanned t (t.pathOf place) (t.scan s place)
    (.ok found, c)

end AnalysisCache

end CodeAtlas
