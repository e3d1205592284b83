import CodeAtlas.Syntax.Subtree

/-!
# Syntax trees

The tree that a reader of the text sees : the visible nodes of a parse, each with its kind, its place, its
text and the field by which its parent reaches it. The children of hidden nodes stand in their place.
-/

namespace CodeAtlas.Syntax

open CodeAtlas.Grammar CodeAtlas.Text

/-- What is known of a node besides its children. -/
structure NodeInfo where
  kind : String
  /-- Whether the kind is a name of the grammar, and not the text of a token. -/
  named : Bool
  /-- Whether the node may stand anywhere, as a comment may. -/
  extra : Bool
  /-- Whether the node is an error, or stands where the text lacks something. -/
  broken : Bool
  /-- The field by which its parent reaches it. -/
  field : Option String
  start : Position
  stop : Position
  text : String
  deriving DecidableEq, Repr, Inhabited

/-- A node with its children in the order of the text. -/
inductive Node where
  | mk (info : NodeInfo) (children : List Node)
  deriving Inhabited

namespace Node

def info : Node → NodeInfo
  | .mk i _ => i

def children : Node → List Node
  | .mk _ cs => cs

def kind (n : Node) : String := n.info.kind

def text (n : Node) : String := n.info.text

def start (n : Node) : Position := n.info.start

def stop (n : Node) : Position := n.info.stop

/-- The children whose kinds are names. -/
def namedChildren (n : Node) : List Node := n.children.filter (·.info.named)

/-- The children that a field reaches. -/
def fieldChildren (n : Node) (field : String) : List Node :=
  n.children.filter (·.info.field == some field)

/-- The first child that a field reaches. -/
def field? (n : Node) (field : String) : Option Node := (n.fieldChildren field).head?

/-! ## Walking a tree -/

mutual

/-- All nodes of a tree, each before its children. -/
def preorder : Node → List Node
  | .mk i cs => .mk i cs :: preorderAll cs

/-- All nodes of several trees. -/
def preorderAll : List Node → List Node
  | [] => []
  | c :: cs => preorder c ++ preorderAll cs

end

/-- The first broken node in the order of the text. -/
def firstBroken? (n : Node) : Option Node := n.preorder.find? (·.info.broken)

end Node

/-! ## From subtrees to nodes -/

/-- The text from a cursor up to a byte position. -/
def textUpTo (stop : Nat) (c : Cursor) : String :=
  String.ofList (go c.position.byte c.rest)
where
  go : Nat → List Char → List Char
    | _, [] => []
    | byte, ch :: rest => if byte < stop then ch :: go (byte + ch.utf8Size) rest else []

section

variable {σ : Type} (l : Language)

/-- How a child is shown by its parent. -/
structure Showing where
  shown : Option Alias := none
  field : Option String := none

/-- The kind of a visible subtree and whether it is a name; `none` for a hidden one. -/
def kindOf? (showing : Showing) (extra : Bool) (label : Label) : Option (String × Bool) :=
  match (if extra then none else showing.shown), label with
  | some as, _ => some (as.kind, as.named)
  | none, .symbol n =>
    let info := l.symbols.getD n default
    if info.visible then some (info.kind, info.named) else none
  | none, .error => some ("ERROR", true)
  | none, .errorRun => none

/-- What is known of the node of a subtree. -/
def nodeInfo (showing : Showing) (kind : String × Bool) (extra broken : Bool) (start stop : Cursor) :
    NodeInfo :=
  { kind := kind.1, named := kind.2, extra, broken
    field := if extra then none else showing.field
    start := start.position, stop := stop.position
    text := textUpTo stop.position.byte start }

/-- How the children of a node are shown, one entry for each step of its production. A hidden node hands
its own field on to children that have none. -/
def showings (production : Option Nat) (inherited : Option String) : List Showing :=
  match production with
  | none => []
  | some p => (l.productions.getD p default).steps.map fun s => ⟨s.shown, s.field <|> inherited⟩

mutual

/-- The visible nodes of a subtree, put before other nodes. -/
def nodesBefore (showing : Showing) : Subtree σ → List Node → List Node
  | .leaf leaf, after =>
    match kindOf? l showing leaf.extra leaf.label with
    | none => after
    | some kind =>
      let broken := leaf.missing || leaf.label == .error
      .mk (nodeInfo showing kind leaf.extra broken leaf.start leaf.stop) [] :: after
  | .node s children, after =>
    match kindOf? l showing s.extra s.label with
    | none => allNodesBefore (showings l s.production showing.field) children after
    | some kind =>
      let inner := allNodesBefore (showings l s.production none) children []
      .mk (nodeInfo showing kind s.extra (s.label == .error) s.start s.stop) inner :: after

/-- The visible nodes of the children of a node, shown as its production says, put before other nodes. -/
def allNodesBefore : List Showing → List (Subtree σ) → List Node → List Node
  | _, [], after => after
  | steps, child :: rest, after =>
    if child.extra then nodesBefore {} child (allNodesBefore steps rest after)
    else nodesBefore (steps.head?.getD {}) child (allNodesBefore (steps.drop 1) rest after)

end

/-- The visible nodes of a subtree. -/
def nodesOf (showing : Showing) (t : Subtree σ) : List Node := nodesBefore l showing t []

end

end CodeAtlas.Syntax
