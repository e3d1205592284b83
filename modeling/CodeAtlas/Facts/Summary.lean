import CodeAtlas.Facts.Repository

/-!
# Summaries

Short descriptions of modules, packages and repositories.
-/

namespace CodeAtlas.Facts

/-- The descriptions of a repository, its packages and its modules. -/
structure Summaries where
  overview : String
  perPackage : Std.ExtTreeMap String String
  perModule : Std.ExtTreeMap String String

/-- The number of imports that a summary lists. -/
def summaryImports : Nat := 10

/-- A line that lists names, if there are any. -/
def nameLine (title : String) (names : List String) : String :=
  if names.isEmpty then "" else "\n  " ++ title ++ ": " ++ String.intercalate ", " names

/-- The description of a module. -/
def ModuleFacts.summary (m : ModuleFacts) : String :=
  s!"Module {m.module} at {m.path}" ++ nameLine "Classes" (m.classes.map (·.name)) ++
    nameLine "Functions" (m.functions.map (·.name)) ++
    nameLine "Imports" ((m.imports.mergeSort fun a b => decide (a ≤ b)).take summaryImports)

/-- The description of a package. -/
def PackageFacts.summary (p : PackageFacts) : String :=
  s!"Package {p.package}: {p.modules.length} modules, {p.classCount} classes, {p.functionCount} functions"

/-- The descriptions of a repository and of all in it. -/
def RepoFacts.summaries (r : RepoFacts) : Summaries :=
  { overview :=
      s!"Repository at {r.root}: {r.files.length} files, {r.pythonFileCount} python files, {r.modules.length} python modules"
    perPackage := r.packages.map fun _ p => p.summary
    perModule := r.modules.foldl (fun t m => t.insert m.module m.summary) ∅ }

end CodeAtlas.Facts
