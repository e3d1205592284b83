import CodeAtlas.Text.Path

/-!
# Qualified names

The name of a module is made of segments with dots between them. All segments but the last name its
package.
-/

namespace CodeAtlas.Facts

/-- What stands before the last dot of a name; empty if there is none. -/
def packageName (name : String) : String :=
  String.ofList ((name.toList.reverse.dropWhile (· != '.')).drop 1).reverse

/-- What stands after the last dot of a name. -/
def lastSegment (name : String) : String :=
  String.ofList (name.toList.reverse.takeWhile (· != '.')).reverse

/-- The texts of segments that have no part in a module's name. -/
def unnamedSegments : List String := [".", "..", "__init__"]

/-- The name of the module in a file, given the file's path from the root. Each segment counts by its text. A
package's own module bears the name of the package, and dashes become underscores. -/
def moduleName (path : Path) : String :=
  let named := (path.stemSegments.map Path.text).filter fun s => !unnamedSegments.contains s
  (".".intercalate named).map fun c => if c == '-' then '_' else c

end CodeAtlas.Facts
