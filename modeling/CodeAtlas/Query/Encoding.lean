import CodeAtlas.Json.Value
import CodeAtlas.Query.View

/-!
# Answers as JSON
-/

namespace CodeAtlas.Query

open CodeAtlas.Graph

def edgeJson (e : CallEdge) : Json :=
  .object [("caller", .string e.caller), ("callee", .string e.callee)]

namespace NodeView

def toJson (n : NodeView) : Json :=
  .object
    [ ("id", .string n.id), ("kind", .string n.kind.word), ("definingUnit", .string n.unit),
      ("line", .nat n.line), ("depth", .nat n.depth) ]

end NodeView

namespace ReachView

def toJson (v : ReachView) : Json :=
  .object
    [ ("symbol", .string v.symbol), ("maxDepth", .nat v.maxDepth), ("found", .bool v.found),
      ("nodes", .array (v.nodes.map (·.toJson))), ("edges", .array (v.edges.map edgeJson)) ]

end ReachView

namespace PathView

def toJson (v : PathView) : Json :=
  .object
    [ ("start", .string v.start), ("end", .string v.target), ("maxDepth", .nat v.maxDepth),
      ("found", .bool v.found), ("paths", .array (v.paths.map .strings)) ]

end PathView

end CodeAtlas.Query
