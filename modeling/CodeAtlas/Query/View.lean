import CodeAtlas.Query.Paths
import CodeAtlas.Query.Reachable

/-!
# Answers to queries

A reachability view is the part of the graph within reach of a name; a path view lists paths.
-/

namespace CodeAtlas.Query

open CodeAtlas.Facts CodeAtlas.Graph

/-- A node within reach. -/
structure NodeView where
  id : String
  kind : DeclarationKind
  unit : String
  line : Nat
  depth : Nat
  deriving DecidableEq, Repr, Inhabited

/-- What is within reach of a name. -/
structure ReachView where
  symbol : String
  maxDepth : Nat
  /-- Whether the name is a node at all. -/
  found : Bool
  nodes : List NodeView
  edges : List CallEdge
  deriving DecidableEq, Repr, Inhabited

/-- The paths between two names. -/
structure PathView where
  start : String
  target : String
  maxDepth : Nat
  /-- Whether both names are nodes. -/
  found : Bool
  paths : List (List String)
  deriving DecidableEq, Repr, Inhabited

/-- Nodes come in the order of their depths, then of their names. -/
def NodeView.before (a b : NodeView) : Bool :=
  decide (a.depth < b.depth) || (a.depth == b.depth && decide (a.id ≤ b.id))

/-- The part of a graph within reach of a name. -/
def reachView (g : CallGraph) (symbol : String) (maxDepth : Nat) : ReachView :=
  let depths := reachable g symbol maxDepth
  let nodes := depths.toList.filterMap fun (id, depth) =>
    (g.node? id).map fun n =>
      { id := n.id, kind := n.kind, unit := n.unit, line := n.line, depth : NodeView }
  { symbol
    maxDepth
    found := g.contains symbol
    nodes := nodes.mergeSort NodeView.before
    edges := g.edges.filter fun e => depths.contains e.caller && depths.contains e.callee }

/-- The paths between two names of a graph. -/
def pathView (g : CallGraph) (start target : String) (maxDepth : Nat) (limit : Nat := defaultMaxPaths) :
    PathView :=
  { start
    target
    maxDepth
    found := g.contains start && g.contains target
    paths := paths g start target maxDepth limit }

/-! ## In words -/

/-- A node on its line, indented by its depth. -/
def NodeView.text (n : NodeView) : String :=
  String.join (List.replicate (n.depth + 1) "  ") ++ s!"{n.id} [{n.kind.word}] {n.unit}:{n.line}\n"

/-- A reachability view in words. -/
def ReachView.text (v : ReachView) : String :=
  if v.found then
    s!"Call graph from '{v.symbol}' (max depth {v.maxDepth}): {v.nodes.length} nodes, {v.edges.length} edges\n\n" ++
      String.join (v.nodes.map NodeView.text)
  else s!"Symbol '{v.symbol}' not found in call graph\n"

/-- A path view in words. -/
def PathView.text (v : PathView) : String :=
  if !v.found then s!"No call graph node for '{v.start}' or '{v.target}'\n"
  else if v.paths.isEmpty then
    s!"No paths from '{v.start}' to '{v.target}' within {v.maxDepth} calls\n"
  else
    s!"Found {v.paths.length} paths from '{v.start}' to '{v.target}' (max depth {v.maxDepth})\n\n" ++
      String.join (v.paths.zipIdx.map fun (path, i) =>
        s!"{i + 1}. " ++ String.intercalate " -> " path ++ "\n")

end CodeAtlas.Query
