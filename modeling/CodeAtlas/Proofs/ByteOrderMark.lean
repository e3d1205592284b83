import CodeAtlas.Proofs.PlainReading
import CodeAtlas.Proofs.RowsDown

/-!
# Texts with a byte order mark

A byte order mark takes three columns of the first row. The tree of a text with a mark is that
of the text, moved on (`parse_marked`), and all that is read off a tree is the same
(`moduleFacts_pastMark`, `callSites_pastMark`). But a module has its statements in the first
column : one that stands on the first row is no longer there, and the text is refused
(`firstOffence?_of_onFirstRow`). If none stands there the columns that are compared are those of
lower rows, which have not moved (`firstOffence?_of_not_onFirstRow`). So a mark is ignored just
if the first row has no statement on it or the text has an error.
-/

namespace CodeAtlas.Syntax

open CodeAtlas.Text

/-! ## Trees behind the mark -/

namespace Node

/-- The tree behind a byte order mark. -/
def pastMark (n : Node) : Node := n.moved Position.pastMark

theorem extra_pastMark (n : Node) : n.pastMark.info.extra = n.info.extra := by
  rw [pastMark, info_moved, NodeInfo.extra_moved]

end Node

end CodeAtlas.Syntax

namespace CodeAtlas.Facts

theorem FunctionFacts.down_zero (f : FunctionFacts) : f.down 0 = f := rfl

theorem ClassFacts.down_zero (c : ClassFacts) : c.down 0 = c := by
  have hmethods : c.methods.map (·.down 0) = c.methods :=
    List.map_id'' FunctionFacts.down_zero c.methods
  rw [down, hmethods]
  rfl

theorem ModuleFacts.down_zero (m : ModuleFacts) : m.down 0 = m := by
  have hclasses : m.classes.map (·.down 0) = m.classes :=
    List.map_id'' ClassFacts.down_zero m.classes
  have hfunctions : m.functions.map (·.down 0) = m.functions :=
    List.map_id'' FunctionFacts.down_zero m.functions
  rw [down, hclasses, hfunctions]

end CodeAtlas.Facts

namespace CodeAtlas.Source

open CodeAtlas.Facts CodeAtlas.Syntax CodeAtlas.Text

theorem moduleFacts_pastMark (module path : String) (n : Node) :
    moduleFacts module path n.pastMark = moduleFacts module path n := by
  rw [Node.pastMark, moduleFacts_moved Position.moves_pastMark, ModuleFacts.down_zero]

theorem callSites_pastMark (n : Node) : callSites n.pastMark = callSites n := by
  rw [Node.pastMark, callSites_moved Position.moves_pastMark]
  exact List.map_id'' (fun _ => rfl) _

theorem startLine_pastMark (n : Node) : startLine n.pastMark = startLine n :=
  startLine_moved Position.moves_pastMark n

theorem keepsColumn_pastMark {n : Node} (h : 0 < n.start.row) : KeepsColumn Position.pastMark n :=
  Position.moves_pastMark.column _ h

/-! ## The first row -/

/-- The tree of a module : statements, and tokens and comments that have nothing in them. -/
structure IsModule (root : Node) : Prop where
  kind : root.kind = "module"
  laidOut : root.LaidOut
  parts : ∀ c ∈ root.children, c.children = [] ∨
    c.info.named = true ∧ c.info.extra = false ∧ c.kind ≠ "block"

instance (root : Node) : Decidable (IsModule root) :=
  decidable_of_iff (root.kind = "module" ∧ root.LaidOut ∧ ∀ c ∈ root.children, c.children = [] ∨
    c.info.named = true ∧ c.info.extra = false ∧ c.kind ≠ "block")
    ⟨fun h => ⟨h.1, h.2.1, h.2.2⟩, fun h => ⟨h.kind, h.laidOut, h.parts⟩⟩

/-- Whether a statement of a module stands on the first row. -/
def OnFirstRow (root : Node) : Prop := ∃ c ∈ statements root.namedChildren, c.start.row = 0

instance (root : Node) : Decidable (OnFirstRow root) :=
  inferInstanceAs (Decidable (∃ c ∈ statements root.namedChildren, c.start.row = 0))

/-- With the mark, a statement of the first row is not in the first column. -/
theorem misplaced?_of_onFirstRow {cs : List Node}
    (hrows : (statements cs).Pairwise fun a b => a.start.row ≤ b.start.row)
    (h : ∃ c ∈ statements cs, c.start.row = 0) :
    misplaced? { column := some 0, headerRow := none, outer := none } (cs.map Node.pastMark) =
      some (1, .unexpectedIndent) := by
  induction cs with
  | nil =>
    obtain ⟨c, hc, -⟩ := h
    exact nomatch hc
  | cons c cs ih =>
    rw [List.map_cons, misplaced?, Node.extra_pastMark]
    cases hextra : c.info.extra with
    | true =>
      rw [statements_cons_of_extra hextra] at hrows h
      exact ih hrows h
    | false =>
      rw [statements_cons_of_not_extra hextra] at hrows h
      have hrow : c.start.row = 0 := by
        obtain ⟨d, hd, hd0⟩ := h
        rcases List.mem_cons.mp hd with rfl | hd
        · exact hd0
        · have := (List.pairwise_cons.mp hrows).1 d hd
          omega
      have hcolumn : 0 < c.pastMark.start.column := by
        rw [Node.pastMark, Node.start_moved]
        simp [Position.pastMark, hrow]
      have hline : startLine c.pastMark = 1 := by
        rw [startLine_pastMark, startLine, hrow]
      simp [hcolumn, hline]

namespace IsModule

variable {root : Node}

theorem pairwise_rows (h : IsModule root) :
    (statements root.namedChildren).Pairwise fun a b => a.start.row ≤ b.start.row := by
  have hrows : root.children.Pairwise fun a b => a.start.row ≤ b.start.row := by
    refine (h.laidOut.inOrder root (Node.self_mem_preorder root)).imp_of_mem
      fun {a b} ha _ hab => ?_
    have hforward := h.laidOut.forward a
      (Node.child_mem_preorder (Node.self_mem_preorder root) ha)
    exact Nat.le_trans (Position.row_le hforward) (Position.row_le hab)
  exact (hrows.sublist List.filter_sublist).sublist List.filter_sublist

/-- A statement on the first row is the first offence with the mark. -/
theorem firstOffence?_of_onFirstRow (h : IsModule root) (hrow : OnFirstRow root) :
    firstOffence? none none root.pastMark = some (1, .unexpectedIndent) := by
  have hkind : root.pastMark.kind = "module" :=
    (root.kind_moved Position.pastMark).trans h.kind
  have hold : oldConstruct? root.pastMark = none := by
    simp [oldConstruct?, hkind]
  have hnamed : root.pastMark.namedChildren = root.namedChildren.map Node.pastMark :=
    root.namedChildren_moved Position.pastMark
  rw [firstOffence?_eq, offence?, hold, misindented?, if_pos hkind, hnamed,
    misplaced?_of_onFirstRow h.pairwise_rows hrow]
  rfl

/-- If no statement is on the first row, what stands there is compared with nothing. -/
theorem firstOffence?_of_not_onFirstRow (h : IsModule root) (hrow : ¬ OnFirstRow root) :
    firstOffence? none none root.pastMark = firstOffence? none none root := by
  have hpos : ∀ c ∈ statements root.namedChildren, 0 < c.start.row :=
    fun c hc => Nat.pos_of_ne_zero fun hzero => hrow ⟨c, hc, hzero⟩
  have hroot := misindented?_moved Position.moves_pastMark
    (fun c hc => keepsColumn_pastMark (hpos c hc)) none none fun _ _ hp => nomatch hp
  have hmoved := firstOffence?_moved_of_children Position.moves_pastMark hroot
    fun c hc before => ?_
  · rw [Option.map_none] at hmoved
    exact hmoved.trans Option.map_id'
  · rcases h.parts c hc with hleaf | ⟨hnamed, hextra, hblock⟩
    · exact firstOffence?_moved_of_leaf Position.moves_pastMark hleaf (some root) before
    · have hc' : 0 < c.start.row := hpos c
        (List.mem_filter.mpr ⟨List.mem_filter.mpr ⟨hc, hnamed⟩, by simp [hextra]⟩)
      exact firstOffence?_moved Position.moves_pastMark (fun m hm => keepsColumn_pastMark
        (Nat.lt_of_lt_of_le hc' (Position.row_le ((h.laidOut.child hc).inside m hm).1)))
        (some root) before fun hkind => absurd hkind hblock

theorem fault?_pastMark (h : IsModule root) (hasError : Bool) :
    fault? hasError root.pastMark =
      if hasError = false ∧ OnFirstRow root then some (some 1, .unexpectedIndent)
      else fault? hasError root := by
  cases hasError with
  | true =>
    rw [if_neg fun h => Bool.noConfusion h.1, Node.pastMark,
      fault?_true_moved Position.moves_pastMark]
    have hline : Option.map (· + 0) = (id : Option Nat → Option Nat) :=
      funext fun _ => Option.map_id'
    rw [hline, Prod.map_id, Option.map_id]
    rfl
  | false =>
    by_cases hrow : OnFirstRow root
    · rw [if_pos ⟨rfl, hrow⟩, fault?, h.firstOffence?_of_onFirstRow hrow]
      rfl
    · rw [if_neg fun h => hrow h.2, fault?, h.firstOffence?_of_not_onFirstRow hrow]
      rfl

end IsModule

/-! ## Extraction -/

/-- The tree of a text behind a byte order mark. -/
def ParsedText.pastMark (parsed : ParsedText) : ParsedText :=
  { parsed with root := parsed.root.pastMark }

theorem extractTree_pastMark (module path : String) {parsed : ParsedText}
    (h : IsModule parsed.root) : extractTree module path parsed.pastMark =
      if parsed.hasError = false ∧ OnFirstRow parsed.root
      then .error ⟨path, some 1, .unexpectedIndent⟩
      else extractTree module path parsed := by
  rw [extractTree, ParsedText.pastMark, h.fault?_pastMark, moduleFacts_pastMark,
    callSites_pastMark]
  split_ifs <;> rfl

/-- A text with a byte order mark before it. -/
def marked (text : String) : String := String.singleton byteOrderMark ++ text

theorem ofString_marked {text : String} (h : (Cursor.ofString text).Unmarked) :
    Cursor.ofString (marked text) = (Cursor.ofString text).withMark := by
  obtain ⟨-, hrest, -⟩ := h rfl
  rw [Cursor.withMark_of_eq_zero rfl hrest, Cursor.ofString, marked, String.toList_append,
    String.toList_singleton]
  rfl

/-- Whether a text is read without recovery. -/
def ReadPlainly (text : String) : Prop :=
  readsPlainly language tokenizer automaton (Cursor.ofString text) = true

/-- The tree of a text with a mark. -/
theorem parse_marked {text : String} (h : (Cursor.ofString text).Unmarked)
    (hplain : ReadPlainly text) : parse (marked text) = (parse text).map ParsedText.pastMark := by
  rw [parse, ofString_marked h, parse_withMark language skipsMark_tokenizer automaton h hplain,
    parse]
  cases Syntax.parse language tokenizer automaton (Cursor.ofString text) with
  | none => rfl
  | some tree =>
    simp only [Option.map_some, Option.bind_some, nodesOf_pastMark, List.head?_map,
      Subtree.errorCost_pastMark, Option.map_map]
    rfl

theorem toOption_extractTree_of_hasError (module path : String) {parsed : ParsedText}
    (h : parsed.hasError = true) : (extractTree module path parsed).toOption = none := by
  rw [extractTree, fault?, if_pos h]
  rfl

/-- A byte order mark before a module is ignored, with the same facts and the same calls, exactly
if the module is refused anyway or has no statement on its first row. A statement there is no
longer in the first column, and the module is refused for it. And this is what becomes of every
text that is read plainly : with a mark before it, its tree is moved on. -/
theorem mark_ignored_iff (module path : String) (parsed : ParsedText) (h : IsModule parsed.root) :
    ((extractTree module path parsed.pastMark).toOption = (extractTree module path parsed).toOption ↔
      (extractTree module path parsed).toOption = none ∨ ¬ OnFirstRow parsed.root) ∧
    extractTree module path parsed.pastMark =
      (if parsed.hasError = false ∧ OnFirstRow parsed.root
        then .error ⟨path, some 1, .unexpectedIndent⟩
        else extractTree module path parsed) ∧
    ∀ text, (Cursor.ofString text).Unmarked → ReadPlainly text → parse text = some parsed →
      extract ⟨module, path, text⟩ = extractTree module path parsed ∧
        extract ⟨module, path, marked text⟩ = extractTree module path parsed.pastMark := by
  have heq := extractTree_pastMark module path h
  refine ⟨?_, heq, fun text htext hplain hparse => ⟨extract_eq_extractTree hparse, ?_⟩⟩
  · rw [heq]
    by_cases hrow : OnFirstRow parsed.root
    · cases herror : parsed.hasError with
      | false =>
        rw [if_pos ⟨rfl, hrow⟩, or_iff_left (not_not_intro hrow)]
        exact eq_comm
      | true =>
        rw [if_neg fun h => Bool.noConfusion h.1]
        exact iff_of_true rfl (.inl (toOption_extractTree_of_hasError module path herror))
    · rw [if_neg fun h => hrow h.2]
      exact iff_of_true rfl (.inr hrow)
  · refine extract_eq_extractTree ?_
    rw [parse_marked htext hplain, hparse]
    rfl

/-- The tree of `import os`, on the first row or below one with a comment. -/
def importOs (comment : Bool) : Node :=
  let node (kind : String) (extra : Bool) (field : Option String) (start stop : Position)
      (text : String) : List Node → Node :=
    .mk ⟨kind, true, extra, false, field, start, stop, text⟩
  let place (column : Nat) : Position :=
    if comment then ⟨4 + column, 1, column⟩ else ⟨column, 0, column⟩
  let statement := node "import_statement" false none (place 0) (place 9) "import os"
    [ .mk ⟨"import", false, false, false, none, place 0, place 6, "import"⟩ [],
      node "dotted_name" false (some "name") (place 7) (place 9) "os"
        [node "identifier" false none (place 7) (place 9) "os" []] ]
  if comment then
    node "module" false none .zero ⟨14, 2, 0⟩ "# c\nimport os\n"
      [node "comment" true none .zero ⟨3, 0, 3⟩ "# c" [], statement]
  else node "module" false none .zero ⟨10, 1, 0⟩ "import os\n" [statement]

/-- A mark is ignored before the tree of `import os` with a comment on the first row, and not
before the one with the import there. The trees are given here, and are not read off texts. -/
theorem mark_ignored_importOs :
    IsModule (importOs true) ∧ IsModule (importOs false) ∧
      (∀ comment, extractTree "m" "m.py" ⟨importOs comment, false⟩ =
        .ok ⟨⟨"m", "m.py", ["os"], [], []⟩, []⟩) ∧
      extractTree "m" "m.py" (ParsedText.pastMark ⟨importOs true, false⟩) =
        .ok ⟨⟨"m", "m.py", ["os"], [], []⟩, []⟩ ∧
      extractTree "m" "m.py" (ParsedText.pastMark ⟨importOs false, false⟩) =
        .error ⟨"m.py", some 1, .unexpectedIndent⟩ := by
  have htree (comment : Bool) : extractTree "m" "m.py" ⟨importOs comment, false⟩ =
      .ok ⟨⟨"m", "m.py", ["os"], [], []⟩, []⟩ := by
    have hfault : fault? false (importOs comment) = none := by
      revert comment
      decide +kernel
    have hcalls : (importOs comment).preorder.filterMap callOf? = [] := by
      revert comment
      decide +kernel
    rw [extractTree, hfault, callSites, hcalls, List.mergeSort_nil]
    cases comment <;> rfl
  have hbelow : IsModule (importOs true) := by decide +kernel
  have hfirst : IsModule (importOs false) := by decide +kernel
  refine ⟨hbelow, hfirst, htree, ?_, ?_⟩
  · rw [(mark_ignored_iff "m" "m.py" ⟨importOs true, false⟩ hbelow).2.1,
      if_neg (by decide +kernel)]
    exact htree true
  · rw [(mark_ignored_iff "m" "m.py" ⟨importOs false, false⟩ hfirst).2.1,
      if_pos (by decide +kernel)]

end CodeAtlas.Source
