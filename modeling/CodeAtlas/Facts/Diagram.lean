import CodeAtlas.Facts.Repository

/-!
# Diagrams

The modules and packages of a repository as nodes, imports and membership as edges. Modules outside every
package get no package node.
-/

namespace CodeAtlas.Facts

/-- A node of a diagram. -/
inductive DiagramNode where
  | module (id name fullName : String) (classes functions imports : Nat)
  | package (id name fullName : String) (modules : Nat)
  deriving DecidableEq, Repr, Inhabited

/-- What an edge of a diagram says. -/
inductive DiagramEdgeKind where
  | imports
  | contains
  deriving DecidableEq, Repr, Inhabited

/-- An edge of a diagram. -/
structure DiagramEdge where
  source : String
  target : String
  kind : DiagramEdgeKind
  deriving DecidableEq, Repr, Inhabited

/-- How much a diagram shows. -/
structure DiagramStats where
  totalFiles : Nat
  pythonFiles : Nat
  modules : Nat
  packages : Nat
  deriving DecidableEq, Repr, Inhabited

/-- A diagram of a repository. -/
structure Diagram where
  nodes : List DiagramNode
  edges : List DiagramEdge
  stats : DiagramStats
  deriving DecidableEq, Repr, Inhabited

def DiagramNode.id : DiagramNode → String
  | module id .. => id
  | package id .. => id

/-- The id of the node of a package. -/
def packageId (name : String) : String := "pkg_" ++ name

def ModuleFacts.diagramNode (m : ModuleFacts) : DiagramNode :=
  .module m.module (lastSegment m.module) m.module m.classes.length m.functions.length m.imports.length

def PackageFacts.diagramNode (p : PackageFacts) : DiagramNode :=
  .package (packageId p.package) (lastSegment p.package) p.package p.modules.length

/-- The edges from a package to its modules. -/
def PackageFacts.memberEdges (p : PackageFacts) : List DiagramEdge :=
  p.modules.map fun m => ⟨packageId p.package, m.module, .contains⟩

namespace RepoFacts

/-- The packages that have a name, in the order of their keys. -/
def namedPackages (r : RepoFacts) : List PackageFacts :=
  (r.packages.toList.map (·.2)).filter fun p => !p.package.isEmpty

/-- The diagram of a repository. -/
def diagram (r : RepoFacts) : Diagram :=
  { nodes := r.modules.map (·.diagramNode) ++ r.namedPackages.map (·.diagramNode)
    edges := r.dependencies.map (fun d => ⟨d.source, d.target, .imports⟩) ++
      r.namedPackages.flatMap (·.memberEdges)
    stats :=
      { totalFiles := r.files.length
        pythonFiles := r.pythonFileCount
        modules := r.modules.length
        packages := r.namedPackages.length } }

end RepoFacts

end CodeAtlas.Facts
