/-!
# Facts of a module

What one source file declares, imports and calls. Lines are counted from 1; a span covers its first and its
last line.
-/

namespace CodeAtlas.Facts

/-- A function or a method. -/
structure FunctionFacts where
  name : String
  /-- The names of its parameters, in parentheses. -/
  signature : String
  decorators : List String
  isAsync : Bool
  startLine : Nat
  endLine : Nat
  deriving DecidableEq, Repr, Inhabited

/-- A class with the methods declared directly in it. -/
structure ClassFacts where
  name : String
  bases : List String
  decorators : List String
  methods : List FunctionFacts
  startLine : Nat
  endLine : Nat
  deriving DecidableEq, Repr, Inhabited

/-- What a module holds at its top level. -/
structure ModuleFacts where
  module : String
  path : String
  imports : List String
  classes : List ClassFacts
  functions : List FunctionFacts
  deriving DecidableEq, Repr, Inhabited

/-- A call whose callee has a name. -/
structure CallSite where
  callee : String
  line : Nat
  /-- Whether the callee is an attribute. -/
  isMethodCall : Bool
  deriving DecidableEq, Repr, Inhabited

/-- What one source file declares and calls. -/
structure ExtractedUnit where
  facts : ModuleFacts
  sites : List CallSite
  deriving DecidableEq, Repr, Inhabited

/-! ## Declarations -/

/-- What is declared. -/
inductive DeclarationKind where
  | function
  | method
  | classDef
  deriving DecidableEq, Repr, Inhabited

/-- The word for a kind. -/
def DeclarationKind.word : DeclarationKind → String
  | .function => "function"
  | .method => "method"
  | .classDef => "class"

/-- Functions and methods can call, classes cannot. -/
def DeclarationKind.isCallable : DeclarationKind → Bool
  | .classDef => false
  | _ => true

/-- A declaration of a module; a method's name is qualified by its class. -/
structure Declaration where
  name : String
  kind : DeclarationKind
  /-- Classes have no signature. -/
  signature : Option String
  decorators : List String
  unit : String
  path : String
  startLine : Nat
  endLine : Nat
  deriving DecidableEq, Repr, Inhabited

namespace Declaration

/-- The number of lines after the first. -/
def span (d : Declaration) : Nat := d.endLine - d.startLine

def containsLine (d : Declaration) (line : Nat) : Bool :=
  decide (d.startLine ≤ line) && decide (line ≤ d.endLine)

end Declaration

namespace ModuleFacts

/-- The declaration of a function, under a name that may be qualified. -/
def ofFunction (m : ModuleFacts) (kind : DeclarationKind) (name : String) (f : FunctionFacts) :
    Declaration :=
  { name, kind, signature := some f.signature, decorators := f.decorators, unit := m.module
    path := m.path, startLine := f.startLine, endLine := f.endLine }

/-- The declarations of a class : itself, then its methods. -/
def ofClass (m : ModuleFacts) (c : ClassFacts) : List Declaration :=
  { name := c.name, kind := .classDef, signature := none, decorators := c.decorators, unit := m.module
    path := m.path, startLine := c.startLine, endLine := c.endLine } ::
    c.methods.map fun f => m.ofFunction .method (c.name ++ "." ++ f.name) f

/-- All declarations, the classes before the functions. -/
def unsortedDeclarations (m : ModuleFacts) : List Declaration :=
  m.classes.flatMap m.ofClass ++ m.functions.map fun f => m.ofFunction .function f.name f

/-- All declarations in the order of their first lines; those that share one stay as they were. -/
def declarations (m : ModuleFacts) : List Declaration :=
  m.unsortedDeclarations.mergeSort fun a b => decide (a.startLine ≤ b.startLine)

/-- The number of declarations. -/
def declarationCount (m : ModuleFacts) : Nat :=
  m.classes.length + (m.classes.flatMap (·.methods)).length + m.functions.length

end ModuleFacts

end CodeAtlas.Facts
