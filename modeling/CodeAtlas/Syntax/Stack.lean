import CodeAtlas.Syntax.Subtree

/-!
# The parser's stack

Several readings of a text are followed at once. Their stacks share what they have in common : a node of the
stack has one link for each way in which it was reached, and a reading is a version, a head that points to a
node. Two versions in the same state at the same place are merged into one.
-/

namespace CodeAtlas.Syntax

open CodeAtlas.Grammar CodeAtlas.Text

variable {σ : Type}

/-- A way to a node : the node below and the subtree between them. A link without a subtree marks the place
where recovery began. -/
structure Link (σ : Type) where
  node : Nat
  subtree : Option (Subtree σ)

/-- A node of the stack. -/
structure StackNode (σ : Type) where
  state : Nat
  cursor : Cursor
  links : Array (Link σ)
  errorCost : Nat
  nodeCount : Nat
  dynamic : Int
  deriving Inhabited

/-- A state below the place where recovery began. -/
structure Landmark where
  cursor : Cursor
  depth : Nat
  state : Nat

/-- Whether a version goes on. -/
inductive Status (σ : Type) where
  | active
  /-- The version cannot use the next token. -/
  | paused (lookahead : Subtree σ)
  /-- The version is given up. -/
  | halted

/-- A version of the stack. -/
structure Head (σ : Type) where
  node : Nat
  /-- The number of visible nodes when the last error was met. -/
  countAtError : Nat
  /-- The scanner's state. -/
  scanner : Option σ
  status : Status σ
  /-- The states that recovery may go back to. -/
  landmarks : Option (List Landmark)

instance : Inhabited (Head σ) := ⟨⟨0, 0, none, .active, none⟩⟩

/-- All versions with the nodes that they share. -/
structure Stack (σ : Type) where
  nodes : Array (StackNode σ)
  heads : Array (Head σ)

/-- Subtrees taken from the top of a version, and the version that is left. -/
structure Slice (σ : Type) where
  subtrees : List (Subtree σ)
  version : Nat

namespace Stack

/-- The largest number of links of a node. -/
def maxLinks : Nat := 8

/-- The largest number of ways that are followed down at once. -/
def maxWays : Nat := 64

/-- One version in the start state. -/
def initial (start : Cursor) : Stack σ :=
  { nodes := #[⟨1, start, #[], 0, 0, 0⟩], heads := #[default] }

@[inline] def head (s : Stack σ) (v : Nat) : Head σ := s.heads.getD v default

@[inline] def node (s : Stack σ) (n : Nat) : StackNode σ := s.nodes.getD n default

@[inline] def top (s : Stack σ) (v : Nat) : StackNode σ := s.node (s.head v).node

@[inline] def state (s : Stack σ) (v : Nat) : Nat := (s.top v).state

def position (s : Stack σ) (v : Nat) : Nat := (s.top v).cursor.position.byte

def isActive (s : Stack σ) (v : Nat) : Bool :=
  match (s.head v).status with
  | .active => true
  | _ => false

def isHalted (s : Stack σ) (v : Nat) : Bool :=
  match (s.head v).status with
  | .halted => true
  | _ => false

/-- The token that a paused version cannot use. -/
def paused? (s : Stack σ) (v : Nat) : Option (Subtree σ) :=
  match (s.head v).status with
  | .paused lookahead => some lookahead
  | _ => none

/-- The cost of the errors of a version; recovery that has just begun counts as one. -/
def errorCost (s : Stack σ) (v : Nat) : Nat :=
  let n := s.top v
  let fresh := n.state == 0 && (match n.links[0]? with
    | some link => link.subtree.isNone
    | none => false)
  if (s.paused? v).isSome || fresh then n.errorCost + recoveryCost else n.errorCost

/-- The number of visible nodes since the last error. -/
def countSinceError (s : Stack σ) (v : Nat) : Nat :=
  (s.top v).nodeCount - (s.head v).countAtError

/-- Let the count at the last error fall with the count of visible nodes. -/
def clamp (s : Stack σ) (v : Nat) : Stack σ :=
  let count := (s.top v).nodeCount
  { s with heads := s.heads.modify v fun h => { h with countAtError := min h.countAtError count } }

@[inline] def modifyHead (s : Stack σ) (v : Nat) (f : Head σ → Head σ) : Stack σ :=
  { s with heads := s.heads.modify v f }

def halt (s : Stack σ) (v : Nat) : Stack σ :=
  s.modifyHead v fun h => { h with status := .halted }

def pause (s : Stack σ) (v : Nat) (lookahead : Subtree σ) : Stack σ :=
  let count := (s.top v).nodeCount
  s.modifyHead v fun h => { h with status := .paused lookahead, countAtError := count }

def resume (s : Stack σ) (v : Nat) : Stack σ :=
  s.modifyHead v fun h => { h with status := .active }

def remove (s : Stack σ) (v : Nat) : Stack σ :=
  { s with heads := s.heads.eraseIdxIfInBounds v }

/-- A copy of a version, with nothing to go back to. -/
def copy (s : Stack σ) (v : Nat) : Nat × Stack σ :=
  (s.heads.size, { s with heads := s.heads.push { s.head v with landmarks := none } })

/-- Put version `v` in the place of version `w`. -/
def renumber (s : Stack σ) (v w : Nat) : Stack σ :=
  if v == w then s
  else
    let source := s.head v
    let source := { source with landmarks := source.landmarks <|> (s.head w).landmarks }
    { s with heads := (s.heads.setIfInBounds w source).eraseIdxIfInBounds v }

def swap (s : Stack σ) (v w : Nat) : Stack σ :=
  let a := s.head v
  let b := s.head w
  { s with heads := (s.heads.setIfInBounds v b).setIfInBounds w a }

/-- Push a subtree, or the mark where recovery begins, and go to a state. -/
def push (l : Language) : Stack σ → Nat → Option (Subtree σ) → Nat → Stack σ
  | ⟨nodes, heads⟩, v, subtree, state =>
    let below := (heads.getD v default).node
    let n := nodes.getD below default
    let link : Link σ := ⟨below, subtree⟩
    let n : StackNode σ :=
      match subtree with
      | none => { n with state, links := #[link] }
      | some t =>
        { state, cursor := t.stop, links := #[link]
          errorCost := n.errorCost + t.errorCost
          nodeCount := n.nodeCount + t.nodeCount l
          dynamic := n.dynamic + t.dynamic }
    let number := nodes.size
    let count := n.nodeCount
    { nodes := nodes.push n
      heads := heads.modify v fun h =>
        { h with node := number, countAtError := if subtree.isNone then count else h.countAtError } }

/-! ## Merging -/

/-- Whether two subtrees between the same nodes are as good as one. -/
def equivalent [BEq σ] (a b : Option (Subtree σ)) : Bool :=
  match a, b with
  | none, none => true
  | some a, some b =>
    a.label == b.label &&
      ((decide (0 < a.errorCost) && decide (0 < b.errorCost)) ||
        (a.padding == b.padding && a.byteSize == b.byteSize &&
          a.children.length == b.children.length && a.extra == b.extra &&
          a.scanned?.map (·.1) == b.scanned?.map (·.1)))
  | _, _ => false

/-- Give a node another link. A link that repeats an existing one is joined to it : between the same two
nodes the subtree of higher dynamic precedence stays, and nodes in the same state at the same place are
merged in turn. -/
def addLink [BEq σ] (l : Language) : Nat → Nat → Link σ → Stack σ → Stack σ
  | 0, _, _, s => s
  | fuel + 1, n, link, s =>
    if link.node == n then s
    else
      let own := s.node n
      let below := s.node link.node
      let subtreeDynamic := (link.subtree.map Subtree.dynamic).getD 0
      let total := below.dynamic + subtreeDynamic
      let mergeable (e : Link σ) : Bool :=
        equivalent e.subtree link.subtree &&
          (e.node == link.node ||
            (let other := s.node e.node
             other.state == below.state && other.cursor.position.byte == below.cursor.position.byte &&
              other.errorCost == below.errorCost))
      match own.links.findIdx? mergeable with
      | some i =>
        match own.links[i]? with
        | none => s
        | some e =>
          if e.node == link.node then
            if (e.subtree.map Subtree.dynamic).getD 0 < subtreeDynamic then
              { s with nodes := s.nodes.modify n fun m =>
                  { m with links := m.links.setIfInBounds i link, dynamic := total } }
            else s
          else
            let s := below.links.foldl (fun s inner => addLink l fuel e.node inner s) s
            { s with nodes := s.nodes.modify n fun m => { m with dynamic := max m.dynamic total } }
      | none =>
        if own.links.size == maxLinks then s
        else
          let count := below.nodeCount + (link.subtree.map (Subtree.nodeCount l)).getD 0
          { s with nodes := s.nodes.modify n fun m =>
              { m with
                links := m.links.push link
                nodeCount := max m.nodeCount count
                dynamic := max m.dynamic total } }

/-- Whether two versions can be merged. -/
def canMerge [BEq σ] (s : Stack σ) (v w : Nat) : Bool :=
  let a := s.top v
  let b := s.top w
  s.isActive v && s.isActive w && a.state == b.state &&
    a.cursor.position.byte == b.cursor.position.byte && a.errorCost == b.errorCost &&
    (s.head v).scanner == (s.head w).scanner

/-- Merge version `w` into version `v` if that can be done. -/
def merge [BEq σ] (l : Language) (s : Stack σ) (v w : Nat) : Bool × Stack σ :=
  if s.canMerge v w then
    let target := (s.head v).node
    let s := (s.top w).links.foldl (fun s link => addLink l 64 target link s) s
    let merged := s.node target
    let s :=
      if merged.state == 0 then s.modifyHead v fun h => { h with countAtError := merged.nodeCount }
      else s
    (true, s.remove w)
  else (false, s)

/-! ## Going down -/

/-- A way down from the top of a version. -/
structure Way (σ : Type) where
  node : Nat
  /-- The subtrees passed, the lowest first. -/
  subtrees : List (Subtree σ)
  /-- How many of them count. -/
  depth : Nat

/-- The way one link further down. -/
def Way.follow (w : Way σ) (link : Link σ) : Way σ :=
  match link.subtree with
  | none => { w with node := link.node, depth := w.depth + 1 }
  | some t =>
    { node := link.node, subtrees := t :: w.subtrees, depth := if t.extra then w.depth else w.depth + 1 }

/-- One step down every way : those that `stops` says so end, the others branch at their links. The first
link goes on in the way's place, the others follow after all ways. -/
def descend (s : Stack σ) (stops : Way σ → Bool) (ways : List (Way σ)) :
    List (Way σ) × List (Way σ) :=
  let step (acc : List (Way σ) × List (Way σ) × List (Way σ)) (w : Way σ) :=
    let (ended, kept, added) := acc
    if stops w then (w :: ended, kept, added)
    else
      match (s.node w.node).links.toList with
      | [] => acc
      | first :: others => (ended, w.follow first :: kept, (others.map w.follow).reverse ++ added)
  let (ended, kept, added) := ways.foldl step ([], [], [])
  (ended.reverse, (kept.reverse ++ added.reverse).take maxWays)

/-- A new version at a node, like version `v` in all else. -/
def branch (s : Stack σ) (v n : Nat) : Stack σ :=
  let h := s.head v
  { s with heads := s.heads.push { h with node := n, status := .active, landmarks := none } }

/-- Record where a way ended : with the slices of the version at that node, or in a new version. -/
def addSlice (v : Nat) (acc : Array (Slice σ) × Stack σ) (w : Way σ) : Array (Slice σ) × Stack σ :=
  let (slices, s) := acc
  let same (slice : Slice σ) : Bool := (s.head slice.version).node == w.node
  match slices.toList.reverse.findIdx? same with
  | some i =>
    let place := slices.size - i
    match slices[slices.size - 1 - i]? with
    | some slice => (slices.insertIdxIfInBounds place ⟨w.subtrees, slice.version⟩, s)
    | none => (slices, s)
  | none => (slices.push ⟨w.subtrees, s.heads.size⟩, s.branch v w.node)

/-- Go down all ways until each has ended. -/
def popLoop (v : Nat) (stops : Stack σ → Way σ → Bool) :
    Nat → List (Way σ) → Array (Slice σ) × Stack σ → Array (Slice σ) × Stack σ
  | 0, _, acc => acc
  | _, [], acc => acc
  | fuel + 1, ways, (slices, s) =>
    let (ended, going) := s.descend (stops s) ways
    popLoop v stops fuel going (ended.foldl (addSlice v) (slices, s))

/-- Take `count` subtrees from a version, not counting those that may stand anywhere. -/
def popCount (s : Stack σ) (v count : Nat) : Array (Slice σ) × Stack σ :=
  popLoop v (fun _ w => w.depth == count) (s.nodes.size + 1) [⟨(s.head v).node, [], 0⟩] (#[], s)

/-- Take everything from a version. -/
def popAll (s : Stack σ) (v : Nat) : Array (Slice σ) × Stack σ :=
  popLoop v (fun s w => (s.node w.node).links.isEmpty) (s.nodes.size + 1)
    [⟨(s.head v).node, [], 0⟩] (#[], s)

/-- Take an error from the top of a version, if one lies there. -/
def popError (s : Stack σ) (v : Nat) : Option (Subtree σ) × Stack σ :=
  let n := (s.head v).node
  match (s.node n).links.toList.findSome? fun link =>
      match link.subtree with
      | some t => if t.isError then some (t, link.node) else none
      | none => none with
  | some (t, below) => (some t, s.modifyHead v fun h => { h with node := below })
  | none => (none, s)

/-- The states below the top of a version, down to a depth. -/
def landmarksLoop (s : Stack σ) (maxDepth : Nat) :
    Nat → List (Way σ) → Array Landmark → Array Landmark
  | 0, _, found => found
  | _, [], found => found
  | fuel + 1, ways, found =>
    let found := ways.foldl
      (fun (found : Array Landmark) w =>
        let n := s.node w.node
        if w.depth > maxDepth then found
        else if found.any fun e => e.depth == w.depth && e.state == n.state then found
        else found.push ⟨n.cursor, w.depth, n.state⟩)
      found
    let (_, going) := s.descend (fun w => decide (w.depth > maxDepth)) ways
    landmarksLoop s maxDepth fuel going found

/-- Remember the states that recovery may go back to. -/
def recordLandmarks (s : Stack σ) (v maxDepth : Nat) : Stack σ :=
  let found := s.landmarksLoop maxDepth (s.nodes.size + 1) [⟨(s.head v).node, [], 0⟩] #[]
  s.modifyHead v fun h => { h with landmarks := some found.toList }

/-- Whether a version has got anywhere since its last error : a subtree that is not empty was pushed. -/
def hasAdvanced (s : Stack σ) (v : Nat) : Bool :=
  let h := s.head v
  if (s.top v).errorCost == 0 then true else go s h.countAtError s.nodes.size h.node
where
  go (s : Stack σ) (count : Nat) : Nat → Nat → Bool
    | 0, _ => false
    | fuel + 1, n =>
      let node := s.node n
      match node.links[0]? with
      | none => false
      | some link =>
        match link.subtree with
        | none => false
        | some t =>
          if 0 < t.padding + t.byteSize then true
          else if count < node.nodeCount && t.errorCost == 0 then go s count fuel link.node
          else false

end Stack

end CodeAtlas.Syntax
