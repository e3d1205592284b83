import CodeAtlas.Graph.CallGraph

/-!
# Names within reach

`reachable` goes out from a name level by level and records at which depth each name is first met. No node
is expanded once the cap is reached; since the cap is looked at before a node is expanded, the last
expansion may go beyond it.
-/

namespace CodeAtlas.Query

open CodeAtlas.Graph

/-- From this many names on, nothing more is expanded. -/
def reachCap : Nat := 100

/-- Names with the depths at which they were met. -/
abbrev Depths := Std.ExtTreeMap String Nat

/-- The names met so far, and those met on the current level in the order of meeting. -/
structure Reach where
  depths : Depths
  met : List String := []

/-- Meet a name at a depth; one that was met before stays as it is. -/
def Reach.meet (depth : Nat) (r : Reach) (name : String) : Reach :=
  if r.depths.contains name then r
  else { depths := r.depths.insert name depth, met := r.met ++ [name] }

/-- Meet the callees of a name, unless the cap is reached. -/
def Reach.expand (g : CallGraph) (depth : Nat) (r : Reach) (name : String) : Reach :=
  if reachCap ≤ r.depths.size then r else (g.callees name).foldl (meet depth) r

/-- Go `levels` levels further out from the names of one level, which have the depth before `depth`. -/
def reachFrom (g : CallGraph) : (levels depth : Nat) → List String → Depths → Depths
  | 0, _, _, depths => depths
  | _ + 1, _, [], depths => depths
  | levels + 1, depth, level, depths =>
    let r := level.foldl (Reach.expand g depth) { depths }
    reachFrom g levels (depth + 1) r.met r.depths

/-- The names within `maxDepth` calls of a name, with their depths; none if it is not a node. -/
def reachable (g : CallGraph) (start : String) (maxDepth : Nat) : Depths :=
  if g.contains start then reachFrom g maxDepth 1 [start] ((∅ : Depths).insert start 0) else ∅

end CodeAtlas.Query
