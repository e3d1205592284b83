import CodeAtlas.Facts.Module
import Std.Data.ExtTreeMap

/-!
# Call graphs

Nodes under their names and edges in the order in which they were added. A call that is made twice is two
edges. Every node also lists its callees and its callers, one for each edge, in the order of the edges.

Only `addNode`, `addEdge` and `merge` change a graph. An edge is refused unless both of its ends are nodes,
and the lists of a node are only ever extended by `addEdge` : whatever lists a new node brings are dropped.
-/

namespace CodeAtlas.Graph

open CodeAtlas.Facts

/-- A declared name with its calls. -/
structure CallNode where
  id : String
  kind : DeclarationKind
  unit : String
  line : Nat
  calls : List String := []
  calledBy : List String := []
  deriving DecidableEq, Repr, Inhabited

/-- A call of one name by another. -/
structure CallEdge where
  caller : String
  callee : String
  deriving DecidableEq, Repr, Inhabited

/-- Nodes by name, and edges. -/
structure CallGraph where
  nodes : Std.ExtTreeMap String CallNode
  edges : List CallEdge

namespace CallNode

/-- The node of a declaration. -/
def ofDeclaration (d : Declaration) : CallNode :=
  { id := d.name, kind := d.kind, unit := d.unit, line := d.startLine }

/-- The node without its calls. -/
def bare (n : CallNode) : CallNode := { n with calls := [], calledBy := [] }

/-- The node with the kind, unit and line of another. -/
def relabel (n other : CallNode) : CallNode :=
  { n with kind := other.kind, unit := other.unit, line := other.line }

end CallNode

namespace CallGraph

def empty : CallGraph := ⟨∅, []⟩

instance : EmptyCollection CallGraph := ⟨empty⟩

instance : Inhabited CallGraph := ⟨empty⟩

/-! ## Looking into a graph -/

def node? (g : CallGraph) (id : String) : Option CallNode := g.nodes[id]?

def contains (g : CallGraph) (id : String) : Bool := g.nodes.contains id

/-- The nodes in the order of their names. -/
def nodeList (g : CallGraph) : List CallNode := g.nodes.toList.map (·.2)

def callees (g : CallGraph) (id : String) : List String := ((g.node? id).map (·.calls)).getD []

def callers (g : CallGraph) (id : String) : List String := ((g.node? id).map (·.calledBy)).getD []

def nodeCount (g : CallGraph) : Nat := g.nodes.size

def edgeCount (g : CallGraph) : Nat := g.edges.length

def isEmpty (g : CallGraph) : Bool := g.nodes.isEmpty

/-! ## Building a graph -/

/-- Add a node. A node of that name keeps its calls and takes the rest from the new one. -/
def addNode (g : CallGraph) (n : CallNode) : CallGraph :=
  let added := match g.nodes[n.id]? with
    | some known => known.relabel n
    | none => n.bare
  { g with nodes := g.nodes.insert n.id added }

/-- The graph with an edge between two of its nodes. -/
def connect (g : CallGraph) (caller callee : String) : CallGraph :=
  let called := g.nodes.modify caller fun n => { n with calls := n.calls ++ [callee] }
  { nodes := called.modify callee fun n => { n with calledBy := n.calledBy ++ [caller] }
    edges := g.edges ++ [⟨caller, callee⟩] }

/-- Add an edge; `none` if one of its ends is not a node. -/
def addEdge? (g : CallGraph) (caller callee : String) : Option CallGraph :=
  if g.contains caller && g.contains callee then some (g.connect caller callee) else none

/-- Add an edge if both of its ends are nodes. -/
def addEdge (g : CallGraph) (e : CallEdge) : CallGraph := (g.addEdge? e.caller e.callee).getD g

/-- Add the nodes of another graph in the order of their names, then its edges in their order. -/
def merge (g other : CallGraph) : CallGraph :=
  other.edges.foldl addEdge (other.nodeList.foldl addNode g)

end CallGraph

end CodeAtlas.Graph
