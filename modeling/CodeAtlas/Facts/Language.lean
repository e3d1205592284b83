import CodeAtlas.Text.Path

/-!
# Languages of source files

A file's language is told by its extension. Only Python files are read any further.
-/

namespace CodeAtlas.Facts

/-- A language of source files. -/
inductive Language where
  | python
  | typescript
  | javascript
  | java
  | go
  | rust
  | c
  | cpp
  | unknown
  deriving DecidableEq, Repr, Inhabited

namespace Language

def all : List Language := [python, typescript, javascript, java, go, rust, c, cpp, unknown]

/-- The word for a language. -/
def word : Language → String
  | python => "python"
  | typescript => "typescript"
  | javascript => "javascript"
  | java => "java"
  | go => "go"
  | rust => "rust"
  | c => "c"
  | cpp => "cpp"
  | unknown => "unknown"

def isPython (l : Language) : Bool := l == python

/-- The extensions by which languages are told, in small letters. -/
def extensions : List (String × Language) :=
  [ ("py", python), ("ts", typescript), ("tsx", typescript), ("js", javascript), ("jsx", javascript),
    ("java", java), ("go", go), ("rs", rust), ("c", c), ("cpp", cpp) ]

/-- The language of an extension, in whatever case its letters are. No letter outside ASCII has a small form
that is in one of these extensions, so that only ASCII letters are lowered. -/
def ofExtension (ext : String) : Language :=
  (extensions.lookup (String.ofList (ext.toList.map Char.toLower))).getD unknown

/-- The language of a file. An extension that is no text tells nothing. -/
def ofPath (path : Path) : Language := ofExtension ((path.extension?.bind Path.text?).getD "")

end Language

end CodeAtlas.Facts
