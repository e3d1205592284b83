import CodeAtlas.Proofs.SyntaxTree
import CodeAtlas.Source.Extract
import Mathlib.Tactic.SplitIfs

/-!
# Trees that are accepted

A tree without errors is accepted exactly if every node of it is lawful : no construct of
Python 2, and in a module or block the statements that start a line are aligned
(`accepted_iff_lawful`). They are if one stands alone on the row on which the block is
opened, or if none stands there and all start in one column.

The pass over the statements of a block keeps a margin. What it does to the statements
that start a line is `Admits`, one step for each of them (`misplaced?_eq_none_iff`). In a
tree that is laid out they start on rows that go down, so that only the first can be on the
row of the header (`Spot.not_onHeader_of_mem_tail`).
-/

namespace CodeAtlas.Source

open CodeAtlas.Syntax CodeAtlas.Text

/-! ## Statements that start a line -/

/-- The statements of a list of nodes : those that cannot stand anywhere. -/
def statements (cs : List Node) : List Node := cs.filter fun c => !c.info.extra

/-- The statements that do not start on the row where the one before ends. The first has
`row` for that. -/
def lineStarts : Option Nat → List Node → List Node
  | _, [] => []
  | row, c :: rest =>
    if row = some c.start.row then lineStarts (some c.stop.row) rest
    else c :: lineStarts (some c.stop.row) rest

theorem statements_cons_of_extra {c : Node} {cs : List Node} (h : c.info.extra = true) :
    statements (c :: cs) = statements cs := by
  simp [statements, h]

theorem statements_cons_of_not_extra {c : Node} {cs : List Node} (h : c.info.extra = false) :
    statements (c :: cs) = c :: statements cs := by
  simp [statements, h]

/-- Statements that follow each other start lines further and further down. -/
theorem lt_row_of_mem_lineStarts {cs : List Node} {row : Nat}
    (hforward : ∀ c ∈ cs, c.start ≤ c.stop) (hpairs : cs.Pairwise fun a b => a.stop ≤ b.start)
    (hrow : ∀ c ∈ cs, row ≤ c.start.row) {d : Node} (hd : d ∈ lineStarts (some row) cs) :
    row < d.start.row := by
  induction cs generalizing row with
  | nil => exact nomatch hd
  | cons c cs ih =>
    obtain ⟨hafter, hrest⟩ := List.pairwise_cons.mp hpairs
    have hc : c.start.row ≤ c.stop.row := Position.row_le (hforward c List.mem_cons_self)
    have hle : row ≤ c.start.row := hrow c List.mem_cons_self
    have hlater (hd : d ∈ lineStarts (some c.stop.row) cs) : row < d.start.row := by
      have := ih (fun e he => hforward e (List.mem_cons_of_mem _ he)) hrest
        (fun e he => Position.row_le (hafter e he)) hd
      omega
    rw [lineStarts] at hd
    split_ifs at hd with hsame
    · exact hlater hd
    · rcases List.mem_cons.mp hd with rfl | hd
      · have : row ≠ d.start.row := fun h => hsame (congrArg some h)
        omega
      · exact hlater hd

/-! ## The pass over the statements -/

/-- Whether the statements that start a line can be taken one after the other. `header` is
the row on which the block was opened and `outer` the column of the statement it belongs
to; `column` is known from the first statement on, and `onHeader` tells whether one was on
the row of the header. -/
def Admits (header outer : Option Nat) : Option Nat → Bool → List Node → Prop
  | _, _, [] => True
  | column, onHeader, c :: rest =>
    if header = some c.start.row then Admits header outer column true rest
    else onHeader = false ∧
      (∀ known, column = some known → c.start.column = known) ∧
      (column = none → ∀ o, outer = some o → o < c.start.column) ∧
      Admits header outer (some c.start.column) false rest

/-- A block has no misplaced statement if those that start a line are admitted. -/
theorem misplaced?_eq_none_iff (m : Margin) (cs : List Node) :
    misplaced? m cs = none ↔
      Admits m.headerRow m.outer m.column m.onHeader
        (lineStarts m.previousRow (statements cs)) := by
  induction cs generalizing m with
  | nil => simp [misplaced?, statements, lineStarts, Admits]
  | cons c cs ih =>
    rw [misplaced?]
    by_cases hextra : c.info.extra = true
    · rw [if_pos hextra, statements_cons_of_extra hextra]
      exact ih m
    rw [if_neg hextra, statements_cons_of_not_extra (by simpa using hextra), lineStarts]
    by_cases hsame : m.previousRow = some c.start.row
    · simp only [hsame, if_true]
      exact ih _
    simp only [hsame, if_false, Admits]
    by_cases hheader : m.headerRow = some c.start.row
    · simp only [hheader, if_true]
      rw [ih]
    simp only [hheader, if_false]
    cases hon : m.onHeader with
    | true => simp
    | false =>
      cases hcolumn : m.column with
      | none =>
        cases houter : m.outer with
        | none => simp [ih]
        | some outer =>
          rcases Nat.lt_or_ge outer c.start.column with hlt | hle
          · simp [ih, hlt, Nat.not_le.mpr hlt]
          · simp [hle, Nat.not_lt.mpr hle]
      | some column =>
        rcases Nat.lt_trichotomy column c.start.column with hlt | rfl | hlt
        · simp [hlt, Nat.ne_of_gt hlt]
        · simp [ih]
        · simp [hlt, Nat.lt_asymm hlt, Nat.ne_of_lt hlt]

section

variable {header outer column : Option Nat} {cs : List Node}

/-- After a statement on the row of the header, no other may start a line. -/
theorem admits_onHeader_iff (h : ∀ c ∈ cs, header ≠ some c.start.row) :
    Admits header outer column true cs ↔ cs = [] := by
  cases cs with
  | nil => simp [Admits]
  | cons c cs => simp [Admits, h c List.mem_cons_self]

/-- Once the column is known, all statements that start a line have it. -/
theorem admits_known_iff {known : Nat} (h : ∀ c ∈ cs, header ≠ some c.start.row) :
    Admits header outer (some known) false cs ↔ ∀ c ∈ cs, c.start.column = known := by
  induction cs with
  | nil => simp [Admits]
  | cons c cs ih =>
    have hrest := ih fun d hd => h d (List.mem_cons_of_mem _ hd)
    simp only [Admits, if_neg (h c List.mem_cons_self), List.forall_mem_cons, Option.some.injEq,
      forall_eq', true_and, reduceCtorEq, false_imp_iff]
    refine and_congr_right fun hc => ?_
    rw [hc, hrest]

end

end CodeAtlas.Source

namespace CodeAtlas.Syntax.Spot

open CodeAtlas.Source CodeAtlas.Text

/-! ## The rule -/

/-- The statements of a node that start a line. -/
def starts (s : Spot) : List Node := lineStarts none (statements s.node.namedChildren)

/-- The row on which a block is opened : the one where the node before it ends. -/
def headerRow (s : Spot) : Option Nat :=
  if s.node.kind = "block" then s.before.map (·.stop.row) else none

/-- A statement starts on the row on which its block is opened. -/
def OnHeader (s : Spot) (c : Node) : Prop := s.headerRow = some c.start.row

/-- Whether the statements may have a column : a module has 0, a block one that is greater
than that of the node around it. -/
def Allows (s : Spot) (column : Nat) : Prop :=
  if s.node.kind = "module" then column = 0
  else ∀ p ∈ s.parent, p.start.column < column

/-- All statements that start a line do so in one column. -/
def InOneColumn (s : Spot) : Prop :=
  ∃ column, s.Allows column ∧ ∀ c ∈ s.starts, c.start.column = column

/-- One statement starts a line, and is on the row of the header. -/
def OnlyOnHeader (s : Spot) : Prop := ∃ c, s.starts = [c] ∧ s.OnHeader c

/-- The statements that start a line are aligned : one is alone on the row of the header, or
the first is not there and all start in one column. -/
def Aligned (s : Spot) : Prop :=
  s.OnlyOnHeader ∨ (∀ c ∈ s.starts.head?, ¬s.OnHeader c) ∧ s.InOneColumn

/-- A node that Python 3 accepts, with a rule for the columns of modules and blocks. -/
structure Lawful (columns : Spot → Prop) (s : Spot) : Prop where
  notPrint : s.node.kind ≠ "print_statement"
  notExec : s.node.kind ≠ "exec_statement"
  notAngle : ¬(s.node.kind = "<>" ∧ s.node.info.named = false)
  noCommaAlias : s.node.kind = "except_clause" →
    ∀ c ∈ s.node.children, c.kind ≠ "," ∧ c.kind ≠ "expression_list"
  columns : s.node.kind = "module" ∨ s.node.kind = "block" → columns s

section

variable {root : Node} {s : Spot}

theorem allows_of_not_module (hkind : s.node.kind ≠ "module") (column : Nat) :
    s.Allows column ↔ ∀ o, s.parent.map (·.start.column) = some o → o < column := by
  simp [Allows, hkind]

theorem exists_allows (s : Spot) : ∃ column, s.Allows column := by
  by_cases hkind : s.node.kind = "module"
  · exact ⟨0, by simp [Allows, hkind]⟩
  · refine ⟨(s.parent.map (·.start.column)).getD 0 + 1,
      (allows_of_not_module hkind _).mpr fun o ho => ?_⟩
    rw [ho, Option.getD_some]
    exact Nat.lt_succ_self o

/-- If there is a first statement, it tells the column. -/
theorem inOneColumn_iff : s.InOneColumn ↔ ∀ first ∈ s.starts.head?,
    s.Allows first.start.column ∧ ∀ c ∈ s.starts, c.start.column = first.start.column := by
  unfold InOneColumn
  cases s.starts with
  | nil => simp [exists_allows s]
  | cons first others => simp [and_left_comm]

theorem onlyOnHeader_iff :
    s.OnlyOnHeader ↔ s.starts.length = 1 ∧ ∀ c ∈ s.starts, s.OnHeader c := by
  simp only [OnlyOnHeader, List.length_eq_one_iff]
  constructor
  · rintro ⟨c, hc, hon⟩
    simp [hc, hon]
  · rintro ⟨⟨c, hc⟩, hon⟩
    exact ⟨c, hc, hon c (by simp [hc])⟩

instance (s : Spot) (c : Node) : Decidable (s.OnHeader c) :=
  inferInstanceAs (Decidable (s.headerRow = some c.start.row))

instance (s : Spot) (column : Nat) : Decidable (s.Allows column) :=
  inferInstanceAs (Decidable (if s.node.kind = "module" then column = 0
    else ∀ p ∈ s.parent, p.start.column < column))

instance (s : Spot) : Decidable s.InOneColumn := decidable_of_iff _ inOneColumn_iff.symm

instance (s : Spot) : Decidable s.OnlyOnHeader := decidable_of_iff _ onlyOnHeader_iff.symm

instance (s : Spot) : Decidable s.Aligned :=
  inferInstanceAs (Decidable (s.OnlyOnHeader ∨ _ ∧ s.InOneColumn))

instance (columns : Spot → Prop) [DecidablePred columns] (s : Spot) :
    Decidable (s.Lawful columns) :=
  decidable_of_iff (s.node.kind ≠ "print_statement" ∧ s.node.kind ≠ "exec_statement" ∧
    ¬(s.node.kind = "<>" ∧ s.node.info.named = false) ∧
    (s.node.kind = "except_clause" →
      ∀ c ∈ s.node.children, c.kind ≠ "," ∧ c.kind ≠ "expression_list") ∧
    (s.node.kind = "module" ∨ s.node.kind = "block" → columns s))
    ⟨fun ⟨h1, h2, h3, h4, h5⟩ => ⟨h1, h2, h3, h4, h5⟩,
      fun h => ⟨h.notPrint, h.notExec, h.notAngle, h.noCommaAlias, h.columns⟩⟩

/-! ## Columns -/

theorem statements_sublist (n : Node) : (statements n.namedChildren).Sublist n.children :=
  List.filter_sublist.trans List.filter_sublist

/-- Only the first statement that starts a line can be on the row of the header. -/
theorem not_onHeader_of_mem_tail (hlaid : root.LaidOut) (hs : s ∈ root.spots) {first : Node}
    {others : List Node} (hstarts : s.starts = first :: others) :
    ∀ c ∈ others, ¬s.OnHeader c := by
  intro c hc hon
  have hnode := Node.node_mem_preorder hs
  have hsub := statements_sublist s.node
  have hforward : ∀ d ∈ statements s.node.namedChildren, d.start ≤ d.stop := fun d hd =>
    hlaid.forward d (Node.child_mem_preorder hnode (hsub.subset hd))
  have hpairs := (hlaid.inOrder _ hnode).sublist hsub
  unfold starts at hstarts
  cases hcs : statements s.node.namedChildren with
  | nil => simp [hcs, lineStarts] at hstarts
  | cons d rest =>
    rw [hcs] at hstarts hforward hpairs hsub
    obtain ⟨rfl, rfl⟩ := List.cons.inj hstarts
    obtain ⟨hafter, hrest⟩ := List.pairwise_cons.mp hpairs
    have hbelow : d.stop.row < c.start.row :=
      lt_row_of_mem_lineStarts (fun e he => hforward e (List.mem_cons_of_mem _ he)) hrest
        (fun e he => Position.row_le (hafter e he)) hc
    -- the block begins where its header ends or later, and the first statement is inside
    unfold OnHeader headerRow at hon
    split_ifs at hon
    obtain ⟨b, hb, hrow⟩ := Option.map_eq_some_iff.mp hon
    have hheader := Position.row_le (hlaid.before_stop_le hs hb)
    have hinside := Position.row_le
      (hlaid.encloses _ hnode d (hsub.subset List.mem_cons_self)).1
    have hd := Position.row_le (hforward d List.mem_cons_self)
    omega

theorem aligned_module_iff (hkind : s.node.kind = "module") :
    s.Aligned ↔ ∀ c ∈ s.starts, c.start.column = 0 := by
  have hheader : ∀ c, ¬s.OnHeader c := by simp [OnHeader, headerRow, hkind]
  simp [Aligned, OnlyOnHeader, InOneColumn, Allows, hkind, hheader]

/-- The rule for a block is what the pass over its statements admits. -/
theorem aligned_block_iff (hlaid : root.LaidOut) (hs : s ∈ root.spots)
    (hkind : s.node.kind = "block") :
    s.Aligned ↔ Admits s.headerRow (s.parent.map (·.start.column)) none false s.starts := by
  cases hstarts : s.starts with
  | nil => simp [Aligned, inOneColumn_iff, hstarts, Admits]
  | cons first others =>
    have htail : ∀ c ∈ others, s.headerRow ≠ some c.start.row :=
      not_onHeader_of_mem_tail hlaid hs hstarts
    rw [Aligned, OnlyOnHeader, inOneColumn_iff, Admits, hstarts]
    by_cases hon : s.OnHeader first
    · have hheader : s.headerRow = some first.start.row := hon
      rw [if_pos hheader, admits_onHeader_iff htail]
      simp [hon]
    · have hheader : s.headerRow ≠ some first.start.row := hon
      rw [if_neg hheader, admits_known_iff htail]
      have hallows := allows_of_not_module (s := s) (by simp [hkind]) first.start.column
      simp [hon, hallows]

/-- A module or block has no misplaced statement if it keeps to the rule. -/
theorem misindented?_eq_none_iff (hlaid : root.LaidOut) (hs : s ∈ root.spots) :
    misindented? s.parent s.before s.node = none ↔
      (s.node.kind = "module" ∨ s.node.kind = "block" → s.Aligned) := by
  unfold misindented?
  split_ifs with hmodule hblock
  · rw [misplaced?_eq_none_iff, aligned_module_iff hmodule]
    simp [hmodule, starts, admits_known_iff]
  · rw [misplaced?_eq_none_iff, aligned_block_iff hlaid hs hblock]
    simp [hblock, starts, headerRow]
  · simp [hmodule, hblock]

theorem oldConstruct?_eq_none_iff (n : Node) : oldConstruct? n = none ↔
    n.kind ≠ "print_statement" ∧ n.kind ≠ "exec_statement" ∧
      ¬(n.kind = "<>" ∧ n.info.named = false) ∧
      (n.kind = "except_clause" →
        ∀ c ∈ n.children, c.kind ≠ "," ∧ c.kind ≠ "expression_list") := by
  unfold oldConstruct?
  split_ifs <;> simp_all [or_iff_not_imp_left]

/-- A node has no offence if it is lawful. -/
theorem offence?_eq_none_iff (hlaid : root.LaidOut) (hs : s ∈ root.spots) :
    offence? s.parent s.before s.node = none ↔ s.Lawful Aligned := by
  have hoffence : offence? s.parent s.before s.node = none ↔ oldConstruct? s.node = none ∧
      misindented? s.parent s.before s.node = none := by
    unfold offence?
    split <;> simp_all
  rw [hoffence, oldConstruct?_eq_none_iff, misindented?_eq_none_iff hlaid hs]
  constructor
  · rintro ⟨⟨hprint, hexec, hangle, hcomma⟩, hcolumns⟩
    exact ⟨hprint, hexec, hangle, hcomma, hcolumns⟩
  · intro h
    exact ⟨⟨h.notPrint, h.notExec, h.notAngle, h.noCommaAlias⟩, h.columns⟩

end

end CodeAtlas.Syntax.Spot

namespace CodeAtlas.Source

open CodeAtlas.Syntax CodeAtlas.Text

/-! ## Whole trees -/

-- what the tree of a text is plays no part below
attribute [local irreducible] parse

mutual

/-- The first offence is that of the first node that has one. -/
theorem firstOffence?_eq_findSome? (parent before : Option Node) : ∀ n : Node,
    firstOffence? parent before n =
      (Node.spotsFrom parent before n).findSome? fun s => offence? s.parent s.before s.node
  | .mk i cs => by
    rw [firstOffence?, Node.spotsFrom, List.findSome?_cons]
    cases offence? parent before (.mk i cs) with
    | some found => rfl
    | none => exact firstOffenceIn?_eq_findSome? _ none cs

theorem firstOffenceIn?_eq_findSome? (parent : Node) : ∀ (before : Option Node) (cs : List Node),
    firstOffenceIn? parent before cs =
      (Node.spotsIn parent before cs).findSome? fun s => offence? s.parent s.before s.node
  | _, [] => by rw [firstOffenceIn?, Node.spotsIn, List.findSome?_nil]
  | before, c :: cs => by
    rw [firstOffenceIn?, Node.spotsIn, List.findSome?_append,
      firstOffence?_eq_findSome? (some parent) before c]
    cases (Node.spotsFrom (some parent) before c).findSome? _ with
    | some found => rfl
    | none => exact firstOffenceIn?_eq_findSome? parent (some c) cs

end

theorem fault?_eq_none_iff_offence? (root : Node) : fault? false root = none ↔
    ∀ s ∈ root.spots, offence? s.parent s.before s.node = none := by
  have hfirst : fault? false root = none ↔ firstOffence? none none root = none := by
    simp [fault?]
  rw [hfirst, firstOffence?_eq_findSome?, List.findSome?_eq_none_iff, Node.spots]

/-- The tree has no offence if all its nodes are lawful. -/
theorem fault?_eq_none_iff {root : Node} (hlaid : root.LaidOut) :
    fault? false root = none ↔ ∀ s ∈ root.spots, s.Lawful Spot.Aligned := by
  rw [fault?_eq_none_iff_offence?]
  exact forall₂_congr fun s hs => Spot.offence?_eq_none_iff hlaid hs

theorem checkedTree_eq_ok_iff {path text : String} {root : Node}
    (hparse : parse text = some ⟨root, false⟩) :
    checkedTree path text = .ok root ↔ fault? false root = none := by
  unfold checkedTree
  simp only [hparse]
  cases fault? false root with
  | none => simp
  | some found => simp

/-- A tree without errors is accepted exactly if all its nodes are lawful, whatever text it
is the tree of. -/
theorem accepted_iff_lawful (root : Node) (hlaid : root.LaidOut) :
    (fault? false root = none ↔ ∀ s ∈ root.spots, s.Lawful Spot.Aligned) ∧
    ∀ path text, parse text = some ⟨root, false⟩ →
      (checkedTree path text = .ok root ↔ ∀ s ∈ root.spots, s.Lawful Spot.Aligned) := by
  refine ⟨fault?_eq_none_iff hlaid, fun path text hparse => ?_⟩
  rw [checkedTree_eq_ok_iff hparse, fault?_eq_none_iff hlaid]

/-- The tree of `if x:` with the statements `a` and `b`, which a semicolon and a continued
line divide. The first is on the given row, and both start in column 6. -/
def continuedIf (row : Nat) : Node :=
  let byte := 6 + 6 * row
  let token (kind : String) (named : Bool) (start stop : Position) (text : String) : Node :=
    .mk ⟨kind, named, false, false, none, start, stop, text⟩ []
  let statement (name : String) (start stop : Position) : Node :=
    .mk ⟨"expression_statement", true, false, false, none, start, stop, name⟩
      [token "identifier" true start stop name]
  let block : Node :=
    .mk ⟨"block", true, false, false, some "consequence", ⟨byte, row, 6⟩,
        ⟨byte + 12, row + 1, 7⟩, "a; \\\n      b"⟩
      [ statement "a" ⟨byte, row, 6⟩ ⟨byte + 1, row, 7⟩,
        token ";" false ⟨byte + 1, row, 7⟩ ⟨byte + 2, row, 8⟩ ";",
        .mk ⟨"line_continuation", true, true, false, none, ⟨byte + 3, row, 9⟩,
          ⟨byte + 5, row + 1, 0⟩, "\\\n"⟩ [],
        statement "b" ⟨byte + 11, row + 1, 6⟩ ⟨byte + 12, row + 1, 7⟩ ]
  let text := if row = 0 then "if x: a; \\\n      b" else "if x:\n      a; \\\n      b"
  .mk ⟨"module", true, false, false, none, .zero, ⟨byte + 13, row + 2, 0⟩, text ++ "\n"⟩
    [ .mk ⟨"if_statement", true, false, false, none, .zero, ⟨byte + 12, row + 1, 7⟩, text⟩
        [ token "if" false .zero ⟨2, 0, 2⟩ "if",
          .mk ⟨"identifier", true, false, false, some "condition", ⟨3, 0, 3⟩, ⟨4, 0, 4⟩, "x"⟩ [],
          token ":" false ⟨4, 0, 4⟩ ⟨5, 0, 5⟩ ":", block ] ]

/-- Below the row of the header, both statements start a line in one column. -/
theorem accepted_continuedIf : (continuedIf 1).LaidOut ∧ fault? false (continuedIf 1) = none := by
  have hlaid : (continuedIf 1).LaidOut := by decide +kernel
  exact ⟨hlaid, (accepted_iff_lawful (continuedIf 1) hlaid).1.mpr (by decide +kernel)⟩

/-- With the first on the row of the header, the second is refused, though all statements that
start a line are in one column that the block may have. -/
theorem refused_continuedIf : (continuedIf 0).LaidOut ∧
    (∀ n ∈ (continuedIf 0).preorder, n.info.broken = false) ∧
    (∀ s ∈ (continuedIf 0).spots, s.Lawful fun s => s.OnlyOnHeader ∨ s.InOneColumn) ∧
    fault? false (continuedIf 0) = some (some 2, .unexpectedIndent) := by
  decide +kernel

end CodeAtlas.Source
