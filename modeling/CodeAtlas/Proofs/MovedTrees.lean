import CodeAtlas.Proofs.Judgement
import CodeAtlas.Proofs.LinesDown

/-!
# Trees in another place

A tree whose positions are moved (`Node.moved`) is read as before. What a node is called, what
its text is and what names it gives depends on no position. Its lines are its rows, and whether
it ends before the first column of a row that is not its first one. So the facts are the same
some lines further down if rows are moved down and columns are kept below the first row
(`moduleFacts_moved`), and so are the calls if bytes keep their distances (`callSites_moved`).

Its faults are the same if the columns that are compared are kept, those of statements and of the
nodes around blocks (`firstOffence?_moved`). Rows are only ever compared with each other : those
of a statement and of the one before it or of the header of its block (`misplaced?_moved`).
-/

namespace CodeAtlas.Text.Position

/-- Moves all positions by some bytes and some rows, and keeps the columns below the first
row. -/
structure Moves (f : Position → Position) (bytes rows : Nat) : Prop where
  byte : ∀ p, (f p).byte = p.byte + bytes
  row : ∀ p, (f p).row = p.row + rows
  column : ∀ p, 0 < p.row → (f p).column = p.column

end CodeAtlas.Text.Position

namespace CodeAtlas.Syntax

open CodeAtlas.Text

/-! ## Nodes -/

namespace NodeInfo

/-- What is known of a node, with its positions moved. -/
def moved (f : Position → Position) (i : NodeInfo) : NodeInfo :=
  { i with start := f i.start, stop := f i.stop }

variable (f : Position → Position) (i : NodeInfo)

@[simp] theorem kind_moved : (i.moved f).kind = i.kind := rfl

@[simp] theorem named_moved : (i.moved f).named = i.named := rfl

@[simp] theorem extra_moved : (i.moved f).extra = i.extra := rfl

@[simp] theorem broken_moved : (i.moved f).broken = i.broken := rfl

@[simp] theorem field_moved : (i.moved f).field = i.field := rfl

@[simp] theorem text_moved : (i.moved f).text = i.text := rfl

end NodeInfo

namespace Node

mutual

/-- The tree with all positions moved. -/
def moved (f : Position → Position) : Node → Node
  | .mk i cs => .mk (i.moved f) (movedAll f cs)

/-- Several trees with all positions moved. -/
def movedAll (f : Position → Position) : List Node → List Node
  | [] => []
  | c :: cs => moved f c :: movedAll f cs

end

variable (f : Position → Position) (n : Node)

theorem movedAll_eq_map (cs : List Node) : movedAll f cs = cs.map (moved f) := by
  induction cs with
  | nil => rfl
  | cons c cs ih => rw [movedAll, ih, List.map_cons]

@[simp] theorem info_moved : (n.moved f).info = n.info.moved f := by
  cases n
  rw [moved]
  rfl

@[simp] theorem children_moved : (n.moved f).children = n.children.map (moved f) := by
  cases n
  rw [moved, children, children, movedAll_eq_map]

@[simp] theorem kind_moved : (n.moved f).kind = n.kind := by
  rw [kind, info_moved, NodeInfo.kind_moved, kind]

@[simp] theorem text_moved : (n.moved f).text = n.text := by
  rw [text, info_moved, NodeInfo.text_moved, text]

@[simp] theorem start_moved : (n.moved f).start = f n.start := by
  rw [start, info_moved]
  rfl

@[simp] theorem stop_moved : (n.moved f).stop = f n.stop := by
  rw [stop, info_moved]
  rfl

@[simp] theorem namedChildren_moved :
    (n.moved f).namedChildren = n.namedChildren.map (moved f) := by
  simp [namedChildren, List.filter_map, Function.comp_def]

@[simp] theorem fieldChildren_moved (field : String) :
    (n.moved f).fieldChildren field = (n.fieldChildren field).map (moved f) := by
  simp [fieldChildren, List.filter_map, Function.comp_def]

@[simp] theorem field?_moved (field : String) :
    (n.moved f).field? field = (n.field? field).map (moved f) := by
  rw [field?, fieldChildren_moved, List.head?_map, field?]

/-- The nodes of a tree that is moved are its nodes, moved. -/
theorem preorder_moved : (n.moved f).preorder = n.preorder.map (moved f) := by
  induction n using children_induction with
  | step n ih =>
    rw [preorder_eq, preorder_eq n, children_moved, List.flatMap_map, List.map_cons,
      List.map_flatMap]
    exact congrArg _ (List.flatMap_congr ih)

theorem firstBroken?_moved : (n.moved f).firstBroken? = n.firstBroken?.map (moved f) := by
  simp [firstBroken?, preorder_moved, List.find?_map, Function.comp_def]

end Node

end CodeAtlas.Syntax

namespace CodeAtlas.Source

open CodeAtlas.Facts CodeAtlas.Syntax CodeAtlas.Text

/-! ## What no position tells -/

section

variable (f : Position → Position) (n : Node)

theorem starredName_moved : starredName (n.moved f) = starredName n := by
  simp [starredName, Function.comp_def]

/-- A parameter is told by its kind and its names. -/
theorem plainParameter?_moved : plainParameter? (n.moved f) = plainParameter? n := by
  have hname : ((n.moved f).field? "name").map (·.text) = (n.field? "name").map (·.text) := by
    simp [Function.comp_def]
  rw [plainParameter?, plainParameter?, Node.kind_moved, Node.text_moved, starredName_moved,
    hname]

mutual

/-- One with a type is named by what stands before the type, wherever that is. -/
theorem parameter?_moved : ∀ n : Node, parameter? (n.moved f) = parameter? n
  | .mk i cs => by
    rw [Node.moved, parameter?, parameter?, firstParameter?_moved, ← Node.moved,
      plainParameter?_moved]
    rfl

theorem firstParameter?_moved : ∀ cs : List Node,
    firstParameter? (Node.movedAll f cs) = firstParameter? cs
  | [] => rfl
  | c :: cs => by
    rw [Node.movedAll, firstParameter?, firstParameter?, parameter?_moved, firstParameter?_moved,
      Node.info_moved, NodeInfo.named_moved]

end

theorem signature_moved (parameters : Option Node) :
    signature (parameters.map (Node.moved f)) = signature parameters := by
  cases parameters with
  | none => rfl
  | some n => simp [signature, List.filterMap_map, parameter?_moved]

mutual

/-- The parts of a dotted name are its texts. -/
theorem dottedParts?_moved : ∀ n : Node, dottedParts? (n.moved f) = dottedParts? n
  | .mk i cs => by
    have hname : ((Node.movedAll f cs).find? (·.info.field == some "attribute")) =
        (cs.find? (·.info.field == some "attribute")).map (Node.moved f) := by
      simp [Node.movedAll_eq_map, List.find?_map]
    rw [Node.moved, dottedParts?, dottedParts?, hname, objectParts?_moved]
    cases cs.find? (·.info.field == some "attribute") with
    | none => rfl
    | some name =>
      simp only [Option.map_some, Node.text_moved]
      rfl

theorem objectParts?_moved : ∀ cs : List Node,
    objectParts? (Node.movedAll f cs) = objectParts? cs
  | [] => rfl
  | c :: cs => by
    rw [Node.movedAll, objectParts?, objectParts?, dottedParts?_moved, objectParts?_moved,
      Node.info_moved, NodeInfo.field_moved]

end

theorem decoratorName_moved : decoratorName (n.moved f) = decoratorName n := by
  simp only [decoratorName, Node.kind_moved, Node.text_moved, dottedParts?_moved]

theorem decoratorNames_moved : decoratorNames (n.moved f) = decoratorNames n := by
  simp [decoratorNames, decoratorName_moved, List.filter_map, List.filterMap_map,
    Function.comp_def]

/-- A definition with its decorators is found in the same child. -/
theorem definition?_moved : definition? (n.moved f) =
    (definition? n).map fun (decorators, d) => (decorators, d.moved f) := by
  simp only [definition?, Node.kind_moved, Node.field?_moved, Option.map_map,
    decoratorNames_moved]
  split_ifs <;> simp [Function.comp_def]

theorem importedName_moved : importedName (n.moved f) = importedName n := by
  simp only [importedName, Node.kind_moved, Node.field?_moved, Node.text_moved]
  cases n.field? "name" <;> simp

theorem importedModule_moved : importedModule (n.moved f) = importedModule n := by
  simp only [importedModule, Node.kind_moved, Node.namedChildren_moved, Node.text_moved,
    List.find?_map, Function.comp_def]
  cases n.namedChildren.find? (·.kind == "dotted_name") <;> simp

/-- What a statement imports is told by its names alone. -/
theorem importsOf_moved : importsOf (n.moved f) = importsOf n := by
  simp only [importsOf, Node.kind_moved, Node.fieldChildren_moved, Node.field?_moved,
    Node.namedChildren_moved, List.map_map, List.any_map, Function.comp_def, importedName_moved]
  cases n.field? "module_name" <;> simp [importedModule_moved]

/-- Constructs of old versions are told by kinds. -/
theorem oldConstruct?_moved : oldConstruct? (n.moved f) = oldConstruct? n := by
  simp only [oldConstruct?, Node.kind_moved, Node.info_moved, NodeInfo.named_moved,
    Node.children_moved, List.any_map, Function.comp_def]

end

/-! ## Lines -/

section

variable {f : Position → Position} {bytes rows : Nat} (hf : Position.Moves f bytes rows)
  (n : Node)

include hf

/-- A node starts as many lines further down as rows are moved. -/
theorem startLine_moved : startLine (n.moved f) = startLine n + rows := by
  simp only [startLine, Node.start_moved, hf.row]
  omega

/-- A row on which a node ends but does not start is not the first one. -/
theorem endLine_moved : endLine (n.moved f) = endLine n + rows := by
  have hcolumn : (f n.stop).column = 0 ∧ (f n.start).row < (f n.stop).row ↔
      n.stop.column = 0 ∧ n.start.row < n.stop.row := by
    rw [hf.row, hf.row, Nat.add_lt_add_iff_right]
    exact and_congr_left fun hlt => by rw [hf.column _ (Nat.zero_lt_of_lt hlt)]
  rw [endLine, Node.start_moved, Node.stop_moved, if_congr hcolumn rfl rfl, hf.row, endLine]
  split <;> omega

/-! ## Facts -/

/-- Only the lines of a function change. -/
theorem functionFacts?_moved (decorators : List String) :
    functionFacts? decorators (n.moved f) = (functionFacts? decorators n).map (·.down rows) := by
  simp only [functionFacts?, Node.field?_moved, Option.map_map, signature_moved,
    Node.children_moved, List.head?_map, Option.any_map, startLine_moved hf, endLine_moved hf,
    Function.comp_def, Node.text_moved, Node.kind_moved, FunctionFacts.down]

theorem functionOf?_moved : functionOf? (n.moved f) = (functionOf? n).map (·.down rows) := by
  rw [functionOf?, definition?_moved, functionOf?]
  cases definition? n with
  | none => rfl
  | some found =>
    simp only [Option.map_some, Option.bind_some, Node.kind_moved, functionFacts?_moved hf]
    split_ifs <;> rfl

/-- Only the lines of a class and of its methods change. -/
theorem classFacts?_moved (decorators : List String) :
    classFacts? decorators (n.moved f) = (classFacts? decorators n).map (·.down rows) := by
  simp only [classFacts?, Node.field?_moved, Option.map_map, startLine_moved hf,
    endLine_moved hf, Function.comp_def, Node.text_moved, ClassFacts.down]
  cases n.field? "superclasses" <;> cases n.field? "body" <;>
    simp [List.filter_map, List.filterMap_map, List.map_filterMap, Function.comp_def,
      functionOf?_moved hf]

theorem classOf?_moved : classOf? (n.moved f) = (classOf? n).map (·.down rows) := by
  rw [classOf?, definition?_moved, classOf?]
  cases definition? n with
  | none => rfl
  | some found =>
    simp only [Option.map_some, Option.bind_some, Node.kind_moved, classFacts?_moved hf]
    split_ifs <;> rfl

/-- Only the lines of a module change. -/
theorem moduleFacts_moved (module path : String) :
    moduleFacts module path (n.moved f) = (moduleFacts module path n).down rows := by
  simp only [moduleFacts, ModuleFacts.down, Node.namedChildren_moved, List.flatMap_map,
    List.filterMap_map, List.map_filterMap, Function.comp_def, importsOf_moved,
    classOf?_moved hf, functionOf?_moved hf]

/-! ## Calls -/

/-- A call is at a byte and on a line, and both move. -/
theorem callOf?_moved :
    callOf? (n.moved f) = (callOf? n).map (Prod.map (· + bytes) (·.down rows)) := by
  simp only [callOf?, Node.kind_moved, Node.field?_moved, startLine_moved hf]
  cases n.field? "function" with
  | none => split_ifs <;> rfl
  | some g =>
    simp only [Option.map_some, Node.kind_moved, Node.field?_moved, Node.start_moved,
      Node.text_moved, hf.byte]
    cases g.field? "attribute" with
    | none => split_ifs <;> rfl
    | some name =>
      simp only [Option.map_some, Node.kind_moved, Node.start_moved, Node.text_moved, hf.byte]
      split_ifs <;> rfl

/-- The calls are sorted by bytes, which keep their distances. -/
theorem callSites_moved : callSites (n.moved f) = (callSites n).map (·.down rows) := by
  have hcalls : (n.moved f).preorder.filterMap callOf? =
      (n.preorder.filterMap callOf?).map (Prod.map (· + bytes) (·.down rows)) := by
    rw [Node.preorder_moved, List.filterMap_map, List.map_filterMap]
    exact List.filterMap_congr fun m _ => callOf?_moved hf m
  have hsort : ((n.preorder.filterMap callOf?).mergeSort fun a b => decide (a.1 ≤ b.1)).map
      (Prod.map (· + bytes) (·.down rows)) = ((n.preorder.filterMap callOf?).map
        (Prod.map (· + bytes) (·.down rows))).mergeSort fun a b => decide (a.1 ≤ b.1) :=
    List.map_mergeSort fun _ _ _ _ => by simp
  rw [callSites, hcalls, ← hsort, callSites, List.map_map, List.map_map]
  rfl

end

/-! ## Faults -/

section

variable (k : Nat)

/-- What is known of a block that is `k` rows further down. -/
def Margin.down (m : Margin) (k : Nat) : Margin :=
  { m with headerRow := m.headerRow.map (· + k), previousRow := m.previousRow.map (· + k) }

@[simp] theorem Margin.column_down (m : Margin) : (m.down k).column = m.column := rfl

@[simp] theorem Margin.outer_down (m : Margin) : (m.down k).outer = m.outer := rfl

@[simp] theorem Margin.onHeader_down (m : Margin) : (m.down k).onHeader = m.onHeader := rfl

theorem Margin.headerRow_down {m : Margin} {row : Nat} :
    (m.down k).headerRow = some (row + k) ↔ m.headerRow = some row := by
  simp [Margin.down]

theorem Margin.previousRow_down {m : Margin} {row : Nat} :
    (m.down k).previousRow = some (row + k) ↔ m.previousRow = some row := by
  simp [Margin.down]

end

/-- A node comes before its children. -/
theorem firstOffence?_eq (parent before : Option Node) (n : Node) :
    firstOffence? parent before n =
      (offence? parent before n).orElse fun _ => firstOffenceIn? n none n.children := by
  cases n with
  | mk i cs =>
    rw [firstOffence?]
    cases offence? parent before (.mk i cs) <;> rfl

/-- A node without children has no statement that could be misplaced. -/
theorem misindented?_of_leaf {n : Node} (h : n.children = []) (parent before : Option Node) :
    misindented? parent before n = none := by
  rw [misindented?, Node.namedChildren, h]
  split_ifs <;> rfl

/-- Whether a node starts in the column that it is moved to. -/
def KeepsColumn (f : Position → Position) (n : Node) : Prop := (f n.start).column = n.start.column

section

variable {f : Position → Position} {bytes rows : Nat} (hf : Position.Moves f bytes rows)

include hf

/-- Statements are compared with each other by their rows, and with the margin by their columns. -/
theorem misplaced?_moved {cs : List Node} (h : ∀ c ∈ statements cs, KeepsColumn f c) :
    ∀ m : Margin, misplaced? (m.down rows) (cs.map (Node.moved f)) =
      (misplaced? m cs).map (Prod.map (· + rows) id) := by
  induction cs with
  | nil => exact fun _ => rfl
  | cons c cs ih =>
    intro m
    rw [List.map_cons, misplaced?, misplaced?, Node.info_moved, NodeInfo.extra_moved]
    cases hextra : c.info.extra with
    | true =>
      rw [statements_cons_of_extra hextra] at h
      exact ih h m
    | false =>
      rw [statements_cons_of_not_extra hextra] at h
      have hcolumn : (f c.start).column = c.start.column := h c List.mem_cons_self
      have hrest := ih fun d hd => h d (List.mem_cons_of_mem _ hd)
      simp only [Bool.false_eq_true, if_false, Node.start_moved, Node.stop_moved, hf.row, hcolumn,
        startLine_moved hf, Margin.previousRow_down, Margin.headerRow_down, Margin.column_down,
        Margin.outer_down, Margin.onHeader_down]
      -- both runs now take the same branch, and go on with margins that are `rows` apart
      split_ifs
      · exact hrest { m with previousRow := some c.stop.row }
      · exact hrest { m with previousRow := some c.stop.row, onHeader := true }
      · rfl
      · cases m.column with
        | none =>
          cases m.outer with
          | none => exact hrest ⟨some c.start.column, m.headerRow, none, some c.stop.row, m.onHeader⟩
          | some outer =>
            simp only
            split_ifs
            · rfl
            · exact hrest
                ⟨some c.start.column, m.headerRow, some outer, some c.stop.row, m.onHeader⟩
        | some column =>
          simp only
          split_ifs
          · rfl
          · rfl
          · exact hrest ⟨some column, m.headerRow, m.outer, some c.stop.row, m.onHeader⟩

/-- The margin of a block is that of the node around it, whose column is kept as well. -/
theorem misindented?_moved {n : Node} (h : ∀ c ∈ statements n.namedChildren, KeepsColumn f c)
    (parent before : Option Node) (hparent : n.kind = "block" → ∀ p ∈ parent, KeepsColumn f p) :
    misindented? (parent.map (Node.moved f)) (before.map (Node.moved f)) (n.moved f) =
      (misindented? parent before n).map (Prod.map (· + rows) id) := by
  simp only [misindented?, Node.kind_moved, Node.namedChildren_moved]
  split_ifs with hmodule hblock
  · rw [← misplaced?_moved hf h]
    rfl
  · have houter : (parent.map (Node.moved f)).map (·.start.column) =
        parent.map (·.start.column) := by
      rw [Option.map_map]
      refine Option.map_congr fun p hp => ?_
      rw [Function.comp_apply, Node.start_moved]
      exact hparent hblock p hp
    have hheader : (before.map (Node.moved f)).map (·.stop.row) =
        (before.map (·.stop.row)).map (· + rows) := by
      rw [Option.map_map, Option.map_map]
      refine Option.map_congr fun b _ => ?_
      rw [Function.comp_apply, Node.stop_moved, hf.row]
      rfl
    rw [houter, hheader, ← misplaced?_moved hf h]
    rfl
  · rfl

omit hf in
/-- If every child has the same first offence, so have the children together. -/
theorem firstOffenceIn?_moved {parent : Node} : ∀ {cs : List Node} (before : Option Node),
    (∀ c ∈ cs, ∀ before : Option Node,
      firstOffence? (some (parent.moved f)) (before.map (Node.moved f)) (c.moved f) =
        (firstOffence? (some parent) before c).map (Prod.map (· + rows) id)) →
    firstOffenceIn? (parent.moved f) (before.map (Node.moved f)) (cs.map (Node.moved f)) =
      (firstOffenceIn? parent before cs).map (Prod.map (· + rows) id)
  | [], _, _ => rfl
  | c :: cs, before, h => by
    rw [List.map_cons, firstOffenceIn?, firstOffenceIn?, h c List.mem_cons_self before]
    cases firstOffence? (some parent) before c with
    | some found => rfl
    | none => exact firstOffenceIn?_moved (some c) fun d hd => h d (List.mem_cons_of_mem _ hd)

/-- A node that is indented as before has the same first offence if its children have. -/
theorem firstOffence?_moved_of_children {n : Node} {parent before : Option Node}
    (h : misindented? (parent.map (Node.moved f)) (before.map (Node.moved f)) (n.moved f) =
      (misindented? parent before n).map (Prod.map (· + rows) id))
    (hchildren : ∀ c ∈ n.children, ∀ before : Option Node,
      firstOffence? (some (n.moved f)) (before.map (Node.moved f)) (c.moved f) =
        (firstOffence? (some n) before c).map (Prod.map (· + rows) id)) :
    firstOffence? (parent.map (Node.moved f)) (before.map (Node.moved f)) (n.moved f) =
      (firstOffence? parent before n).map (Prod.map (· + rows) id) := by
  have hin := firstOffenceIn?_moved none hchildren
  rw [Option.map_none] at hin
  rw [firstOffence?_eq, firstOffence?_eq, offence?, offence?, oldConstruct?_moved, h,
    startLine_moved hf, Node.children_moved, hin]
  cases oldConstruct? n with
  | some fault => rfl
  | none => cases misindented? parent before n <;> rfl

theorem firstOffence?_moved_of_leaf {n : Node} (h : n.children = []) (parent before : Option Node) :
    firstOffence? (parent.map (Node.moved f)) (before.map (Node.moved f)) (n.moved f) =
      (firstOffence? parent before n).map (Prod.map (· + rows) id) := by
  refine firstOffence?_moved_of_children hf ?_ fun c hc => ?_
  · have hmoved : (n.moved f).children = [] := by
      rw [Node.children_moved, h, List.map_nil]
    rw [misindented?_of_leaf h, misindented?_of_leaf hmoved, Option.map_none]
  · rw [h] at hc
    exact absurd hc List.not_mem_nil

/-- A tree whose nodes keep their columns has the same first offence. -/
theorem firstOffence?_moved {n : Node} (h : ∀ m ∈ n.preorder, KeepsColumn f m) :
    ∀ parent before : Option Node, (n.kind = "block" → ∀ p ∈ parent, KeepsColumn f p) →
      firstOffence? (parent.map (Node.moved f)) (before.map (Node.moved f)) (n.moved f) =
        (firstOffence? parent before n).map (Prod.map (· + rows) id) := by
  induction n using Node.children_induction with
  | step n ih =>
    intro parent before hparent
    have hchild : ∀ c ∈ n.children, ∀ m ∈ c.preorder, KeepsColumn f m :=
      fun c hc m hm => h m (Node.mem_preorder_of_child hc hm)
    have hstatements : ∀ c ∈ statements n.namedChildren, KeepsColumn f c := fun c hc =>
      hchild c (List.mem_of_mem_filter (List.mem_of_mem_filter hc)) c (Node.self_mem_preorder c)
    have hn := misindented?_moved hf hstatements parent before hparent
    refine firstOffence?_moved_of_children hf hn fun c hc before =>
      ih c hc (hchild c hc) (some n) before fun _ p hp => ?_
    obtain rfl := Option.mem_some_iff.mp hp
    exact h n (Node.self_mem_preorder n)

/-- The fault of a text that could not be read is that of the first broken node. -/
theorem fault?_true_moved (n : Node) :
    fault? true (n.moved f) = (fault? true n).map (Prod.map (Option.map (· + rows)) id) := by
  have hline : (n.firstBroken?.map (Node.moved f)).map startLine =
      (n.firstBroken?.map startLine).map (· + rows) := by
    rw [Option.map_map, Option.map_map]
    exact Option.map_congr fun m _ => startLine_moved hf m
  rw [fault?, if_pos rfl, Node.firstBroken?_moved, hline, fault?, if_pos rfl]
  rfl

end

end CodeAtlas.Source
