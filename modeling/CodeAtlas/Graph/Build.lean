import CodeAtlas.Graph.Attribution
import CodeAtlas.Graph.CallGraph
import CodeAtlas.Graph.SymbolTable

/-!
# Building call graphs

`fragment` is the graph of one module : its declarations are nodes, and each call inside a function or a
method is an edge if the callee's name is declared by the module or known to a symbol table. `callGraph`
merges the fragments of several modules, resolved against one table.

Every call is counted once : as an edge, as one that no function makes, or as one of an unknown name.
-/

namespace CodeAtlas.Graph

open CodeAtlas.Facts

/-- How many calls became edges, and why the others did not. -/
structure CallCounts where
  units : Nat := 0
  callSites : Nat := 0
  /-- Calls outside every function and method. -/
  unattributed : Nat := 0
  /-- Calls of names that nobody declares. -/
  unresolved : Nat := 0
  edges : Nat := 0
  deriving DecidableEq, Repr, Inhabited

namespace CallCounts

def add (a b : CallCounts) : CallCounts :=
  { units := a.units + b.units
    callSites := a.callSites + b.callSites
    unattributed := a.unattributed + b.unattributed
    unresolved := a.unresolved + b.unresolved
    edges := a.edges + b.edges }

/-- The counts in words. -/
def text (c : CallCounts) : String :=
  s!"{c.units} units, {c.callSites} call sites, {c.edges} edges, {c.unresolved} unresolved"

end CallCounts

/-- The node of a name in a table. -/
def SymbolEntry.toNode (id : String) (e : SymbolEntry) : CallNode :=
  { id, kind := e.kind, unit := e.unit, line := e.startLine }

/-- The graph with a node for a name, if it has one or the table knows the name. -/
def resolve? (table : SymbolTable) (g : CallGraph) (name : String) : Option CallGraph :=
  if g.contains name then some g
  else (table.get? name).map fun e => g.addNode (e.toNode name)

/-- Take in a call with the name of its owner. -/
def addCall (table : SymbolTable) (acc : CallGraph × CallCounts) (call : CallSite × Option String) :
    CallGraph × CallCounts :=
  let (g, counts) := acc
  match call.2 with
  | none => (g, { counts with unattributed := counts.unattributed + 1 })
  | some owner =>
    match resolve? table g call.1.callee with
    | none => (g, { counts with unresolved := counts.unresolved + 1 })
    | some g =>
      match g.addEdge? owner call.1.callee with
      | none => (g, counts)
      | some g => (g, { counts with edges := counts.edges + 1 })

/-- The calls of a module with the names of their owners. -/
def ownedCalls (facts : ModuleFacts) (sites : List CallSite) : List (CallSite × Option String) :=
  let ds := facts.declarations
  sites.zip ((lineOwners ds (sites.map (·.line))).map fun owner => owner.bind fun i => ds[i]?.map (·.name))

/-- The graph of the declarations of a module, without edges. -/
def declared (facts : ModuleFacts) : CallGraph :=
  facts.declarations.foldl (fun g d => g.addNode (.ofDeclaration d)) ∅

/-- The graph of one module. -/
def fragment (table : SymbolTable) (facts : ModuleFacts) (sites : List CallSite) :
    CallGraph × CallCounts :=
  (ownedCalls facts sites).foldl (addCall table)
    (declared facts, { units := 1, callSites := sites.length })

/-- The graph of one module, where only its own declarations are known. -/
def unitGraph (u : ExtractedUnit) : CallGraph :=
  (fragment (.ofModules [u.facts]) u.facts u.sites).1

/-- The merged graph of several modules. -/
def callGraph (table : SymbolTable) (units : List ExtractedUnit) : CallGraph × CallCounts :=
  (units.map fun u => fragment table u.facts u.sites).foldl
    (fun acc f => (acc.1.merge f.1, acc.2.add f.2)) (∅, {})

end CodeAtlas.Graph
