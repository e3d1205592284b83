import CodeAtlas.Proofs.CallSites
import CodeAtlas.Proofs.MovedTrees
import CodeAtlas.Proofs.Spans

/-!
# Trees further down

A tree whose rows are all `k` further down (`Node.down`) is a tree whose positions have moved with
all columns kept, and so it is judged and read as before. It is accepted exactly if it was, with
the same facts and the same calls `k` lines further down, and a fault that is reported is the same
fault `k` lines further down (`extractTree_down`).
-/

namespace CodeAtlas.Text

/-- A position that is `k` rows further down. Only its row changes. -/
def Position.down (p : Position) (k : Nat) : Position := { p with row := p.row + k }

theorem Position.moves_down (k : Nat) : Position.Moves (·.down k) 0 k where
  byte _ := rfl
  row _ := rfl
  column _ _ := rfl

end CodeAtlas.Text

namespace CodeAtlas.Syntax

/-! ## Nodes -/

namespace Node

/-- The tree with all rows `k` further down. -/
def down (k : Nat) (n : Node) : Node := n.moved (·.down k)

variable (n : Node) (k : Nat)

@[simp] theorem start_down : (n.down k).start = n.start.down k := start_moved _ n

@[simp] theorem stop_down : (n.down k).stop = n.stop.down k := stop_moved _ n

theorem preorder_down : (n.down k).preorder = n.preorder.map (down k) := preorder_moved _ n

end Node

end CodeAtlas.Syntax

namespace CodeAtlas.Source

open CodeAtlas.Facts CodeAtlas.Graph CodeAtlas.Syntax CodeAtlas.Text

variable (n : Node) (k : Nat)

theorem moduleFacts_down (module path : String) :
    moduleFacts module path (n.down k) = (moduleFacts module path n).down k :=
  moduleFacts_moved (Position.moves_down k) n module path

theorem callSites_down : callSites (n.down k) = (callSites n).map (·.down k) :=
  callSites_moved (Position.moves_down k) n

/-! ## Faults -/

/-- No column changes, so whatever is compared is found as before. -/
theorem fault?_down (hasError : Bool) : fault? hasError (n.down k) =
    (fault? hasError n).map (Prod.map (Option.map (· + k)) id) := by
  cases hasError with
  | true => exact fault?_true_moved (Position.moves_down k) n
  | false =>
    have hcolumn (m : Node) : KeepsColumn (·.down k) m := rfl
    have hfirst := firstOffence?_moved (Position.moves_down k)
      (fun m (_ : m ∈ n.preorder) => hcolumn m) none none fun _ p _ => hcolumn p
    rw [Option.map_none] at hfirst
    simp [fault?, Node.down, hfirst, Function.comp_def]

/-! ## Extraction -/

/-- What is extracted from a tree. -/
def extractTree (module path : String) (parsed : ParsedText) : Except Rejection ExtractedUnit :=
  match fault? parsed.hasError parsed.root with
  | some (line, fault) => .error ⟨path, line, fault⟩
  | none => .ok ⟨moduleFacts module path parsed.root, callSites parsed.root⟩

theorem extract_eq_extractTree {u : SourceUnit} {parsed : ParsedText}
    (h : parse u.text = some parsed) : extract u = extractTree u.module u.path parsed := by
  unfold extract checkedTree extractTree
  rw [h]
  cases hfault : fault? parsed.hasError parsed.root with
  | none => simp only [hfault, Except.map]
  | some found => simp only [hfault, Except.map]

/-- The tree of a text, `k` rows further down. -/
def ParsedText.down (parsed : ParsedText) (k : Nat) : ParsedText :=
  { parsed with root := parsed.root.down k }

/-- The rejection of a text that is `k` lines further down. -/
def Rejection.down (r : Rejection) (k : Nat) : Rejection := { r with line := r.line.map (· + k) }

theorem extractTree_down (module path : String) (parsed : ParsedText) :
    extractTree module path (parsed.down k) =
      ((extractTree module path parsed).map (·.down k)).mapError (·.down k) := by
  simp only [extractTree, ParsedText.down, fault?_down, moduleFacts_down, callSites_down]
  cases fault? parsed.hasError parsed.root <;> rfl

/-! ## Lines within a bound -/

/-- All lines of a module and its calls are below a bound. -/
structure LinesBelow (bound : Nat) (u : ExtractedUnit) : Prop where
  classes : ∀ c ∈ u.facts.classes, c.startLine < bound ∧ c.endLine < bound
  callables : ∀ f ∈ u.facts.callables, f.startLine < bound ∧ f.endLine < bound
  sites : ∀ s ∈ u.sites, s.line < bound

/-- All rows of a tree leave room for their lines below a bound. -/
def RowsBelow (bound : Nat) (root : Node) : Prop :=
  ∀ n ∈ root.preorder, n.start.row + 1 < bound ∧ n.stop.row + 1 < bound

namespace RowsBelow

variable {bound : Nat} {root a : Node}

theorem lines_lt (h : RowsBelow bound root) (ha : a ∈ root.preorder) :
    (lines a).1 < bound ∧ (lines a).2 < bound := by
  obtain ⟨hstart, hstop⟩ := h a ha
  simp only [lines, startLine, endLine]
  split <;> omega

theorem defined?_mem {d : Node} (ha : a ∈ root.preorder) (hd : defined? a = some d) :
    d ∈ root.preorder := by
  obtain ⟨-, rfl | hchild⟩ := of_defined? hd
  · exact ha
  · exact Node.child_mem_preorder ha hchild

theorem function_lt (h : RowsBelow bound root) (ha : a ∈ root.preorder) {f : FunctionFacts}
    (hf : functionOf? a = some f) : f.startLine < bound ∧ f.endLine < bound := by
  obtain ⟨d, hd, -, hspan⟩ := functionOf?_eq_some hf
  have hlines := h.lines_lt (defined?_mem ha hd)
  rwa [← hspan] at hlines

theorem method_lt (h : RowsBelow bound root) (ha : a ∈ root.preorder) {c : ClassFacts}
    (hc : classOf? a = some c) {f : FunctionFacts} (hf : f ∈ c.methods) :
    f.startLine < bound ∧ f.endLine < bound := by
  obtain ⟨d, hd, -, -, hnone | ⟨body, hbody, hmethods⟩⟩ := classOf?_eq_some hc
  · rw [hnone] at hf
    exact nomatch hf
  · rw [hmethods] at hf
    obtain ⟨b, hb, hf⟩ := List.mem_filterMap.mp hf
    have hbodymem := Node.child_mem_preorder (defined?_mem ha hd) hbody
    exact h.function_lt (WellSpaced.namedChild_mem hbodymem hb) hf

/-- The lines that are read off a tree are those of its nodes. -/
theorem linesBelow (h : RowsBelow bound root) (module path : String) :
    LinesBelow bound ⟨moduleFacts module path root, callSites root⟩ := by
  have hstatement {a : Node} (ha : a ∈ root.namedChildren) : a ∈ root.preorder :=
    WellSpaced.namedChild_mem (Node.self_mem_preorder root) ha
  refine ⟨fun c hc => ?_, fun f hf => ?_, fun s hs => ?_⟩
  · obtain ⟨a, ha, hc⟩ := List.mem_filterMap.mp hc
    obtain ⟨d, hd, -, hspan, -⟩ := classOf?_eq_some hc
    have hlines := h.lines_lt (defined?_mem (hstatement ha) hd)
    rwa [← hspan] at hlines
  · rcases List.mem_append.mp hf with hf | hf
    · obtain ⟨c, hc, hf⟩ := List.mem_flatMap.mp hf
      obtain ⟨a, ha, hc⟩ := List.mem_filterMap.mp hc
      exact h.method_lt (hstatement ha) hc hf
    · obtain ⟨a, ha, hf⟩ := List.mem_filterMap.mp hf
      exact h.function_lt (hstatement ha) hf
  · obtain ⟨⟨place, site⟩, hfound, rfl⟩ := List.mem_map.mp hs
    obtain ⟨a, ha, hcall⟩ := List.mem_filterMap.mp (List.mem_mergeSort.mp hfound)
    have hline : site.line = startLine a := by
      cases calls_of_callOf? hcall <;> rfl
    rw [hline]
    exact (h a ha).1

end RowsBelow

/-- With all rows `k` further down a tree is accepted or refused as before. The facts, the calls
and the line of a fault are `k` lines further down and otherwise the same. The graph of a module
that is `k` lines further down has the same edges in the same order, and the same nodes with
their lines `k` further down. Rows that leave room for it give lines of 32 bits. And what is
extracted from a text is what is extracted from its tree. -/
theorem extraction_moves_with_rows (module path : String) (parsed : ParsedText) (k : Nat) :
    extractTree module path (parsed.down k) =
      ((extractTree module path parsed).map (·.down k)).mapError (·.down k) ∧
    (∀ u : ExtractedUnit, (unitGraph (u.down k)).edges = (unitGraph u).edges ∧
      ∀ name, (unitGraph (u.down k)).node? name = ((unitGraph u).node? name).map (·.down k)) ∧
    ((∀ n ∈ parsed.root.preorder, n.start.row + k < 4294967295 ∧ n.stop.row + k < 4294967295) →
      ∀ u, extractTree module path (parsed.down k) = .ok u → LinesBelow 4294967296 u) ∧
    ∀ text, parse text = some parsed →
      extract ⟨module, path, text⟩ = extractTree module path parsed := by
  refine ⟨extractTree_down k module path parsed, fun u => ⟨edges_unitGraph_down u k,
    node?_unitGraph_down u k⟩, fun hrows u hu => ?_, fun _ h => extract_eq_extractTree h⟩
  have hbelow : RowsBelow 4294967296 (parsed.root.down k) := by
    intro n hn
    rw [Node.preorder_down] at hn
    obtain ⟨m, hm, rfl⟩ := List.mem_map.mp hn
    have := hrows m hm
    simp only [Node.start_down, Node.stop_down, Position.down]
    omega
  unfold extractTree at hu
  split at hu
  · cases hu
  · rw [← Except.ok.inj hu]
    exact hbelow.linesBelow module path

/-- A function `f` on two rows that calls itself on the second. -/
def callsItself : Node :=
  let node (kind : String) (field : Option String) (start stop : Position) (text : String) :
      List Node → Node :=
    .mk ⟨kind, true, false, false, field, start, stop, text⟩
  let token (text : String) (start stop : Position) : Node :=
    .mk ⟨text, false, false, false, none, start, stop, text⟩ []
  node "module" none .zero ⟨14, 2, 0⟩ "def f():\n f()\n"
    [ node "function_definition" none .zero ⟨13, 1, 4⟩ "def f():\n f()"
        [ token "def" .zero ⟨3, 0, 3⟩,
          node "identifier" (some "name") ⟨4, 0, 4⟩ ⟨5, 0, 5⟩ "f" [],
          node "parameters" (some "parameters") ⟨5, 0, 5⟩ ⟨7, 0, 7⟩ "()"
            [token "(" ⟨5, 0, 5⟩ ⟨6, 0, 6⟩, token ")" ⟨6, 0, 6⟩ ⟨7, 0, 7⟩],
          token ":" ⟨7, 0, 7⟩ ⟨8, 0, 8⟩,
          node "block" (some "body") ⟨10, 1, 1⟩ ⟨13, 1, 4⟩ "f()"
            [ node "expression_statement" none ⟨10, 1, 1⟩ ⟨13, 1, 4⟩ "f()"
                [ node "call" none ⟨10, 1, 1⟩ ⟨13, 1, 4⟩ "f()"
                    [ node "identifier" (some "function") ⟨10, 1, 1⟩ ⟨11, 1, 2⟩ "f" [],
                      node "argument_list" (some "arguments") ⟨11, 1, 2⟩ ⟨13, 1, 4⟩ "()"
                        [token "(" ⟨11, 1, 2⟩ ⟨12, 1, 3⟩, token ")" ⟨12, 1, 3⟩ ⟨13, 1, 4⟩] ] ] ] ] ]

/-- Seven rows further down the function is on lines 8 and 9. -/
theorem extraction_moves_with_rows_callsItself :
    let unit : ExtractedUnit :=
      ⟨⟨"m", "m.py", [], [], [⟨"f", "()", [], false, 1, 2⟩]⟩, [⟨"f", 2, false⟩]⟩
    let moved : ExtractedUnit :=
      ⟨⟨"m", "m.py", [], [], [⟨"f", "()", [], false, 8, 9⟩]⟩, [⟨"f", 9, false⟩]⟩
    extractTree "m" "m.py" ⟨callsItself, false⟩ = .ok unit ∧
      (∀ n ∈ callsItself.preorder,
        n.start.row + 7 < 4294967295 ∧ n.stop.row + 7 < 4294967295) ∧
      extractTree "m" "m.py" (ParsedText.down ⟨callsItself, false⟩ 7) = .ok moved ∧
      LinesBelow 4294967296 moved ∧
      (unitGraph moved).edges = (unitGraph unit).edges ∧
      (unitGraph moved).node? "f" = ((unitGraph unit).node? "f").map (·.down 7) := by
  intro unit moved
  have hunit : extractTree "m" "m.py" ⟨callsItself, false⟩ = .ok unit := by
    have hfault : fault? false callsItself = none := by decide +kernel
    have hcalls : callsItself.preorder.filterMap callOf? = [(10, ⟨"f", 2, false⟩)] := by
      decide +kernel
    rw [extractTree, hfault, callSites, hcalls, List.mergeSort_singleton]
    rfl
  have hrows : ∀ n ∈ callsItself.preorder,
      n.start.row + 7 < 4294967295 ∧ n.stop.row + 7 < 4294967295 := by
    decide +kernel
  obtain ⟨hmoved, hgraph, hlines, -⟩ :=
    extraction_moves_with_rows "m" "m.py" ⟨callsItself, false⟩ 7
  rw [hunit] at hmoved
  exact ⟨hunit, hrows, hmoved, hlines hrows moved hmoved, (hgraph unit).1, (hgraph unit).2 "f"⟩

end CodeAtlas.Source
