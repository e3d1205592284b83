import CodeAtlas.Facts.Language
import CodeAtlas.Facts.Module
import CodeAtlas.Facts.Name
import Std.Data.ExtTreeMap

/-!
# Facts of a repository

The files of a repository, the facts of its modules, its packages and the imports between its modules.
-/

namespace CodeAtlas.Facts

/-- A file of a repository. Python files have a module name, unless it would be empty; those inside a
package have the package's name. -/
structure FileFacts where
  path : String
  relPath : String
  language : Language
  package : Option String
  module : Option String
  deriving DecidableEq, Repr, Inhabited

/-- The modules of one package. -/
structure PackageFacts where
  package : String
  modules : List ModuleFacts
  deriving DecidableEq, Repr, Inhabited

/-- One module imports another. -/
structure Dependency where
  source : String
  target : String
  deriving DecidableEq, Repr, Inhabited

/-- Packages under their names. -/
abbrev Packages := Std.ExtTreeMap String PackageFacts

/-- What is known of a repository. -/
structure RepoFacts where
  root : String
  files : List FileFacts
  modules : List ModuleFacts
  packages : Packages
  dependencies : List Dependency

namespace PackageFacts

def classCount (p : PackageFacts) : Nat := (p.modules.flatMap (·.classes)).length

def functionCount (p : PackageFacts) : Nat := (p.modules.flatMap (·.functions)).length

end PackageFacts

/-- The imports of known modules, module by module. -/
def dependencies (ms : List ModuleFacts) : List Dependency :=
  ms.flatMap fun m =>
    (m.imports.filter fun i => (ms.map (·.module)).contains i).map fun i => ⟨m.module, i⟩

/-- Add a module to its package. -/
def addToPackage (ps : Packages) (m : ModuleFacts) : Packages :=
  let key := packageName m.module
  ps.insert key
    (match ps[key]? with
    | some p => { p with modules := p.modules ++ [m] }
    | none => ⟨key, [m]⟩)

/-- The packages of some modules. Modules outside every package are under the empty name. -/
def packages (ms : List ModuleFacts) : Packages := ms.foldl addToPackage ∅

namespace RepoFacts

def pythonFileCount (r : RepoFacts) : Nat := r.files.countP (·.language.isPython)

/-- The facts of a repository with the given files and modules. -/
def ofModules (root : String) (files : List FileFacts) (ms : List ModuleFacts) : RepoFacts :=
  { root, files, modules := ms, packages := Facts.packages ms, dependencies := Facts.dependencies ms }

end RepoFacts

end CodeAtlas.Facts
