import CodeAtlas.Analysis
import CodeAtlas.Tree.Scan

/-!
# Analysis of a repository

The Python files that a scan finds are read and analyzed. A file over the size limit is not read, and one that is
not UTF-8 cannot be; both are recorded before the files whose text is rejected.
-/

namespace CodeAtlas

open CodeAtlas.Facts CodeAtlas.Source CodeAtlas.Tree

/-- What is wrong with a file that is no text. -/
def notText : String := "stream did not contain valid UTF-8"

/-- What is wrong with a file that is not there. -/
def notThere : String := "No such file or directory (os error 2)"

/-- Read the unit of a scanned file with a module name. -/
def readUnit (t : Tree) (f : ScannedFile) (module : String) : Except UnitFailure SourceUnit :=
  if f.oversized then .error (.oversized module f.path.text f.size)
  else
    match (t.locate? f.path).bind fun place => t.contentAt? place [] with
    | none => .error (.unreadable module f.path.text notThere)
    | some content =>
      match String.fromUTF8? content with
      | some text => .ok ⟨module, f.path.text, text⟩
      | none => .error (.unreadable module f.path.text notText)

/-- Read all scanned files that have a module name. -/
def readUnits (t : Tree) (files : List ScannedFile) : List (Except UnitFailure SourceUnit) :=
  files.filterMap fun f => f.module.map fun m => readUnit t f m

/-- An analysis with further failures, which come first. -/
def Analysis.withFailures (a : Analysis) (failures : List UnitFailure) : Analysis :=
  let diagnostics :=
    { a.report.diagnostics with unitsFailed := a.report.diagnostics.unitsFailed + failures.length }
  { a with report := { a.report with failures := failures ++ a.report.failures, diagnostics } }

/-- The analysis of a scan of a root. -/
def analyzeScanned (t : Tree) (root : Path) (files : List ScannedFile) : Analysis :=
  let reads := readUnits t files
  let units := reads.filterMap fun r => r.toOption
  let failures := reads.filterMap fun r =>
    match r with
    | .ok _ => none
    | .error f => some f
  (analyze root.text (files.map (·.facts)) units).withFailures failures

/-- The analysis of the directory at a place. -/
def analyzeAt (t : Tree) (s : ScanSettings) (place : Place) : Analysis :=
  analyzeScanned t (t.pathOf place) (t.scan s place)

/-- The analysis of the directory to which an absolute path leads; `given` is the path as it was given. -/
def analyzeRepository (t : Tree) (s : ScanSettings) (path given : Path) : Except RootError Analysis :=
  (t.rootPlace path given).map fun place => analyzeAt t s place

end CodeAtlas
