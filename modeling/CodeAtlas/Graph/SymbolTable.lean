import CodeAtlas.Facts.Module
import Std.Data.ExtTreeMap

/-!
# Symbol tables

What each declared name stands for. A name that is declared again stands for the later declaration, and the
table counts how often that happened.
-/

namespace CodeAtlas.Graph

open CodeAtlas.Facts

/-- Where a name is declared and as what. -/
structure SymbolEntry where
  kind : DeclarationKind
  unit : String
  path : String
  startLine : Nat
  endLine : Nat
  deriving DecidableEq, Repr, Inhabited

/-- The entry of a declaration. -/
def SymbolEntry.ofDeclaration (d : Declaration) : SymbolEntry :=
  { kind := d.kind, unit := d.unit, path := d.path, startLine := d.startLine, endLine := d.endLine }

/-- Declared names, and how many declarations were replaced by later ones. -/
structure SymbolTable where
  entries : Std.ExtTreeMap String SymbolEntry
  collisions : Nat

namespace SymbolTable

def empty : SymbolTable := ⟨∅, 0⟩

instance : EmptyCollection SymbolTable := ⟨empty⟩

instance : Inhabited SymbolTable := ⟨empty⟩

def get? (t : SymbolTable) (name : String) : Option SymbolEntry := t.entries[name]?

def contains (t : SymbolTable) (name : String) : Bool := t.entries.contains name

/-- The number of names. -/
def size (t : SymbolTable) : Nat := t.entries.size

def isEmpty (t : SymbolTable) : Bool := t.entries.isEmpty

/-- The names with their entries, in the order of the names. -/
def toList (t : SymbolTable) : List (String × SymbolEntry) := t.entries.toList

/-- Enter a declaration. -/
def insert (t : SymbolTable) (d : Declaration) : SymbolTable :=
  { entries := t.entries.insert d.name (.ofDeclaration d)
    collisions := if t.contains d.name then t.collisions + 1 else t.collisions }

/-- Enter the declarations of a module. -/
def insertModule (t : SymbolTable) (m : ModuleFacts) : SymbolTable := m.declarations.foldl insert t

/-- The table of some modules. -/
def ofModules (ms : List ModuleFacts) : SymbolTable := ms.foldl insertModule empty

end SymbolTable

end CodeAtlas.Graph
