import CodeAtlas.Graph.CallGraph

/-!
# Paths between names

`paths` lists the simple paths from one name to another, the shorter first. Among those of one length the
order is that of the calls : the path comes first that turns to the earlier callee where they part. Calling a
name twice makes no second path.

The search keeps the partial paths of one length together, each with its last name first.
-/

namespace CodeAtlas.Query

open CodeAtlas.Graph

/-- The number of paths that are listed if nothing else is asked for. -/
def defaultMaxPaths : Nat := 1000

/-- The ways to make a partial path one call longer without meeting a name again. -/
def extensions (g : CallGraph) : List String → List (List String)
  | [] => []
  | last :: before =>
    ((g.callees last).eraseDups.filter fun c => !(last :: before).contains c).map (· :: last :: before)

/-- Whether a partial path has arrived. -/
def arrived (target : String) (path : List String) : Bool := path.head? == some target

/-- Up to `room` paths that come from partial paths of one length by at most `depth` further calls. -/
def searchPaths (g : CallGraph) (target : String) : (depth room : Nat) → List (List String) →
    List (List String)
  | _, _, [] => []
  | depth, room, level =>
    let done := level.filter (arrived target)
    if room ≤ done.length then done.take room
    else
      match depth with
      | 0 => done
      | depth + 1 =>
        done ++ searchPaths g target depth (room - done.length)
          ((level.filter fun p => !arrived target p).flatMap (extensions g))

/-- The first `limit` simple paths of at most `maxDepth` calls. -/
def paths (g : CallGraph) (start target : String) (maxDepth : Nat) (limit : Nat := defaultMaxPaths) :
    List (List String) :=
  if g.contains start && g.contains target then
    (searchPaths g target maxDepth limit [[start]]).map List.reverse
  else []

end CodeAtlas.Query
