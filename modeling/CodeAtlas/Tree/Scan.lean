import CodeAtlas.Facts.Name
import CodeAtlas.Facts.Repository
import CodeAtlas.Settings
import CodeAtlas.Tree.Ignore

/-!
# Scans

The files below a directory of a tree, sorted by their paths, each with what can be told of it without reading
it. Directories with certain names are not entered, links are not followed, and ignore files may leave out
more.
-/

namespace CodeAtlas.Tree

open CodeAtlas.Facts

/-- A file that a scan found. -/
structure ScannedFile where
  path : Path
  /-- The text of the path from the scanned directory. -/
  relPath : String
  language : Language
  /-- The module name of a Python file, unless it would be empty. -/
  module : Option String
  /-- The package of the module, unless it is at the top. -/
  package : Option String
  size : Nat
  /-- The time of the last change in nanoseconds, of 64 bits; what is earlier than time 0 counts as 0. -/
  changed : Nat
  /-- Whether the file is over the size limit. -/
  oversized : Bool
  deriving DecidableEq, Repr, Inhabited

/-- What a report says of a scanned file. -/
def ScannedFile.facts (f : ScannedFile) : FileFacts :=
  ⟨f.path.text, f.relPath, f.language, f.package, f.module⟩

/-- A text, unless it is empty. -/
def nonEmpty? (s : String) : Option String := if s.isEmpty then none else some s

/-- What a scan says of a file, given its path from the scanned directory. -/
def describeFile (s : ScanSettings) (root rel : Path) (size : Nat) (changed : Int) : ScannedFile :=
  let language := Language.ofPath rel
  let module := if language.isPython then nonEmpty? (moduleName rel) else none
  { path := Path.join [root, rel]
    relPath := rel.text
    language
    module
    package := module.bind fun m => nonEmpty? (packageName m)
    size
    changed := changed.toNat % UInt64.size
    oversized := decide (s.maxFileSize < size) }

/-- A file with its place. -/
structure PlacedFile where
  place : Place
  content : ByteArray
  changed : Int

mutual

/-- The files of an entry that is not left out itself. -/
def filesOf (t : Tree) (s : ScanSettings) (rules : List IgnoreRules) (place : Place) :
    Entry → List PlacedFile
  | .file content changed => [⟨place, content, changed⟩]
  | .link _ => []
  | .directory entries =>
    filesIn t s (if s.respectIgnoreFiles then t.ignoreRulesAt place :: rules else rules) place entries

/-- The files of the entries of a directory. -/
def filesIn (t : Tree) (s : ScanSettings) (rules : List IgnoreRules) (place : Place) :
    List (Path × Entry) → List PlacedFile
  | [] => []
  | (name, e) :: rest =>
    let here := place ++ [name]
    let left := (e.isDirectory && s.ignoreDirs.contains name.text) || isIgnored rules here e.isDirectory
    (if left then [] else filesOf t s rules here e) ++ filesIn t s rules place rest

end

/-- The files below the directory at a place that a scan finds. -/
def filesBelow (t : Tree) (s : ScanSettings) (place : Place) : List PlacedFile :=
  let rules := if s.respectIgnoreFiles then (t.ignoreRulesDownTo place).drop 1 else []
  match Entry.at? place t.top with
  | some e => filesOf t s rules place e
  | none => []

/-- Scan the directory at a place. -/
def scan (t : Tree) (s : ScanSettings) (place : Place) : List ScannedFile :=
  ((t.filesBelow s place).map fun f =>
    describeFile s (t.pathOf place) (Path.join (f.place.drop place.length)) f.content.size
      f.changed).mergeSort fun a b => decide (a.relPath ≤ b.relPath)

/-! ## Roots -/

/-- Why a path is no root of a scan. -/
inductive RootError where
  | notFound (path : Path)
  | notDirectory (path : Path)
  deriving DecidableEq, Repr, Inhabited

/-- What is wrong with a path. -/
def RootError.message : RootError → String
  | notFound path => s!"Root path not found: {path.text}"
  | notDirectory path => s!"Invalid root path (not a directory): {path.text}"

/-- The place of the directory to which an absolute path leads; `given` is the path as it was given. -/
def rootPlace (t : Tree) (path given : Path) : Except RootError Place :=
  match t.locate? path with
  | none => .error (.notFound given)
  | some place =>
    match Entry.at? place t.top with
    | some (.directory _) => .ok place
    | some _ => .error (.notDirectory given)
    | none => .error (.notFound given)

end CodeAtlas.Tree
