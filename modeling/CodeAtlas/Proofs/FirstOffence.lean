import CodeAtlas.Proofs.Judgement

/-!
# Which offence is reported

The offences of a tree are its constructs of Python 2 and the statements of its modules and
blocks that start a line out of place (`Node.offences`). A module or block is judged as a
whole when it is come to, before anything that stands inside its statements. What is reported
is an offence of the first node in the order of the tree that has any, and of a module or block
the first statement out of place (`Spot.of_offence?_eq_some`).

So it need not be the first offence in the text. A construct of Python 2 that is reported is,
and a statement out of place is unless there is an offence on an earlier line inside what
stands before it in the same module or block (`reported_first_iff`).
-/

namespace CodeAtlas.Source

open CodeAtlas.Syntax

theorem startLine_le {n m : Node} (h : n.start ≤ m.start) : startLine n ≤ startLine m :=
  Nat.succ_le_succ (Text.Position.row_le h)

/-! ## The statement that is refused -/

/-- At a statement the pass goes on with some margin or stops, whatever follows. -/
theorem misplaced?_cons_cases (m : Margin) (c : Node) :
    (∃ m', ∀ rest, misplaced? m (c :: rest) = misplaced? m' rest) ∨
      ∃ fault, ∀ rest, misplaced? m (c :: rest) = some (startLine c, fault) := by
  simp only [misplaced?]
  split_ifs
  · exact .inl ⟨_, fun _ => rfl⟩
  · exact .inl ⟨_, fun _ => rfl⟩
  · exact .inl ⟨_, fun _ => rfl⟩
  · exact .inr ⟨_, fun _ => rfl⟩
  · split
    · split
      · split_ifs
        · exact .inr ⟨_, fun _ => rfl⟩
        · exact .inl ⟨_, fun _ => rfl⟩
      · exact .inl ⟨_, fun _ => rfl⟩
    · split_ifs
      · exact .inr ⟨_, fun _ => rfl⟩
      · exact .inr ⟨_, fun _ => rfl⟩
      · exact .inl ⟨_, fun _ => rfl⟩

/-- The statements before one that is misplaced are in their places. -/
theorem exists_of_misplaced?_eq_some {m : Margin} {cs : List Node} {line : Nat} {fault : Fault}
    (h : misplaced? m cs = some (line, fault)) : ∃ before c after, cs = before ++ c :: after ∧
      startLine c = line ∧ misplaced? m before = none ∧ misplaced? m (before ++ [c]) ≠ none := by
  induction cs generalizing m with
  | nil => cases h
  | cons c cs ih =>
    rcases misplaced?_cons_cases m c with ⟨m', hgo⟩ | ⟨fault', hstop⟩
    · rw [hgo] at h
      obtain ⟨before, d, after, rfl, hline, hnone, hsome⟩ := ih h
      refine ⟨c :: before, d, after, rfl, hline, ?_, ?_⟩
      · rwa [hgo]
      · rwa [List.cons_append, hgo]
    · rw [hstop] at h
      obtain ⟨rfl, rfl⟩ := Prod.mk.inj (Option.some.inj h)
      refine ⟨[], c, cs, rfl, rfl, rfl, ?_⟩
      rw [List.nil_append, hstop]
      exact Option.some_ne_none _

theorem exists_lineStarts_append (row : Option Nat) (cs : List Node) :
    ∃ row', ∀ rest, lineStarts row (cs ++ rest) = lineStarts row cs ++ lineStarts row' rest := by
  induction cs generalizing row with
  | nil => exact ⟨row, fun rest => rfl⟩
  | cons c cs ih =>
    obtain ⟨row', hrow'⟩ := ih (some c.stop.row)
    refine ⟨row', fun rest => ?_⟩
    rw [List.cons_append, lineStarts, lineStarts, hrow']
    split_ifs <;> rfl

theorem lineStarts_sublist (row : Option Nat) (cs : List Node) :
    (lineStarts row cs).Sublist cs := by
  induction cs generalizing row with
  | nil => exact List.Sublist.refl _
  | cons c cs ih =>
    rw [lineStarts]
    split_ifs
    · exact (ih _).cons c
    · exact (ih _).cons_cons c

/-- The next node starts a line as a statement, or has no part in the lines. -/
theorem lineStarts_statements_cons (row : Option Nat) (c : Node) : ∃ row',
    (∀ rest, lineStarts row (statements (c :: rest)) = lineStarts row' (statements rest)) ∨
      ∀ rest, lineStarts row (statements (c :: rest)) =
        c :: lineStarts row' (statements rest) := by
  cases hextra : c.info.extra with
  | true => exact ⟨row, .inl fun rest => by rw [statements_cons_of_extra hextra]⟩
  | false =>
    simp only [statements_cons_of_not_extra hextra, lineStarts]
    refine ⟨some c.stop.row, ?_⟩
    split_ifs
    · exact .inl fun rest => rfl
    · exact .inr fun rest => rfl

/-- Of the statements that start a line, those before a misplaced one are admitted, and it is
not. -/
theorem exists_refused {m : Margin} {cs : List Node} {line : Nat} {fault : Fault}
    (h : misplaced? m cs = some (line, fault)) : ∃ placed c later,
      lineStarts m.previousRow (statements cs) = placed ++ c :: later ∧ startLine c = line ∧
      Admits m.headerRow m.outer m.column m.onHeader placed ∧
      ¬Admits m.headerRow m.outer m.column m.onHeader (placed ++ [c]) := by
  obtain ⟨before, c, after, rfl, hline, hnone, hsome⟩ := exists_of_misplaced?_eq_some h
  obtain ⟨row, hrow⟩ := exists_lineStarts_append m.previousRow (statements before)
  have hstatements : ∀ rest, statements (before ++ rest) = statements before ++ statements rest :=
    fun rest => List.filter_append before rest
  rw [misplaced?_eq_none_iff] at hnone
  rw [Ne, misplaced?_eq_none_iff, hstatements, hrow] at hsome
  rw [hstatements, hrow]
  have hnil : ∀ row, lineStarts row (statements []) = [] := fun _ => rfl
  obtain ⟨row', hskip | hstart⟩ := lineStarts_statements_cons row c
  · rw [hskip, hnil, List.append_nil] at hsome
    exact absurd hnone hsome
  · rw [hstart, hnil] at hsome
    rw [hstart]
    exact ⟨_, c, _, rfl, hline, hnone, hsome⟩

end CodeAtlas.Source

namespace CodeAtlas.Syntax

open CodeAtlas.Source CodeAtlas.Text

/-! ## Offences -/

/-- A construct of Python 2. -/
def Node.IsOld (n : Node) : Prop :=
  n.kind = "print_statement" ∨ n.kind = "exec_statement" ∨
    n.kind = "<>" ∧ n.info.named = false ∨
    n.kind = "except_clause" ∧ ∃ c ∈ n.children, c.kind = "," ∨ c.kind = "expression_list"

instance (n : Node) : Decidable n.IsOld :=
  inferInstanceAs (Decidable (_ ∨ _ ∨ _ ∧ _ ∨ _ ∧ ∃ c ∈ n.children, _ ∨ _))

namespace Spot

variable {root : Node} {s : Spot}

/-- A statement that starts a line is out of place below a header that has a statement on its
row, in a column that the block may not have, and in another column than the first statement
if that has one the block may have. -/
def OutOfPlace (s : Spot) (first c : Node) : Prop :=
  ¬s.OnHeader c ∧ (s.OnHeader first ∨ ¬s.Allows c.start.column ∨
    s.Allows first.start.column ∧ c.start.column ≠ first.start.column)

instance (s : Spot) (first c : Node) : Decidable (s.OutOfPlace first c) :=
  inferInstanceAs (Decidable (¬_ ∧ (_ ∨ ¬_ ∨ _ ∧ _ ≠ _)))

/-- The statements of a module or block that are out of place. -/
def misplaced (s : Spot) : List Node :=
  if s.node.kind = "module" ∨ s.node.kind = "block" then
    s.starts.filter fun c => s.starts.head?.any fun first => decide (s.OutOfPlace first c)
  else []

/-- The offences for which a node is judged : itself, and the statements directly in it. -/
def offences (s : Spot) : List Node := (if s.node.IsOld then [s.node] else []) ++ s.misplaced

end Spot

/-- The offences of a tree. -/
def Node.offences (root : Node) : List Node := root.spots.flatMap Spot.offences

namespace Spot

variable {root : Node} {s : Spot}

theorem mem_misplaced {c : Node} : c ∈ s.misplaced ↔
    (s.node.kind = "module" ∨ s.node.kind = "block") ∧ c ∈ s.starts ∧
      ∃ first ∈ s.starts.head?, s.OutOfPlace first c := by
  unfold misplaced
  split_ifs with hkind
  · simp [hkind, Option.any_eq_true]
  · simp [hkind]

theorem mem_offences {n : Node} :
    n ∈ s.offences ↔ s.node.IsOld ∧ n = s.node ∨ n ∈ s.misplaced := by
  unfold offences
  split_ifs with hold <;> simp [hold]

theorem oldConstruct?_eq_none_iff_not_isOld (n : Node) : oldConstruct? n = none ↔ ¬n.IsOld := by
  rw [oldConstruct?_eq_none_iff, Node.IsOld]
  simp only [not_or, not_and, not_exists, ne_eq]

theorem starts_sublist (s : Spot) : s.starts.Sublist s.node.children :=
  (lineStarts_sublist none _).trans (statements_sublist s.node)

/-! ## Statements out of place -/

/-- Whether the pass over a module or block admits statements that start a line. -/
def Admitted (s : Spot) (cs : List Node) : Prop :=
  if s.node.kind = "module" then Admits none none (some 0) false cs
  else Admits s.headerRow (s.parent.map (·.start.column)) none false cs

/-- Below a header with a statement on its row, all that starts a line is out of place. -/
theorem outOfPlace_iff_of_onHeader {first c : Node} (hon : s.OnHeader first) :
    s.OutOfPlace first c ↔ ¬s.OnHeader c := by
  simp [OutOfPlace, hon]

theorem not_outOfPlace_iff {first c : Node} (hon : ¬s.OnHeader first) (hc : ¬s.OnHeader c) :
    ¬s.OutOfPlace first c ↔ s.Allows c.start.column ∧
      (s.Allows first.start.column → c.start.column = first.start.column) := by
  simp [OutOfPlace, hon, hc]

/-- Statements are admitted up to the first that is out of place. -/
theorem admitted_iff (hlaid : root.LaidOut) (hs : s ∈ root.spots)
    (hkind : s.node.kind = "module" ∨ s.node.kind = "block") {cs : List Node}
    (hcs : cs <+: s.starts) :
    s.Admitted cs ↔ ∀ c ∈ cs, ∀ first ∈ s.starts.head?, ¬s.OutOfPlace first c := by
  cases cs with
  | nil => simp [Admitted, Admits]
  | cons first others =>
    obtain ⟨later, hstarts⟩ := hcs
    rw [List.cons_append] at hstarts
    have hhead : s.starts.head? = some first := by rw [← hstarts, List.head?_cons]
    have htail : ∀ c ∈ others, ¬s.OnHeader c := fun c hc =>
      not_onHeader_of_mem_tail hlaid hs hstarts.symm c (List.mem_append_left _ hc)
    simp only [hhead, Option.mem_some, forall_eq']
    rcases hkind with hkind | hkind
    · have hheader : ∀ c, ¬s.OnHeader c := by simp [OnHeader, headerRow, hkind]
      rw [Admitted, if_pos hkind, admits_known_iff (by simp)]
      refine forall₂_congr fun c _ => ?_
      simp only [not_outOfPlace_iff (hheader first) (hheader c), Allows, hkind, if_true]
      exact ⟨fun hc => ⟨hc, fun hfirst => hc.trans hfirst.symm⟩, And.left⟩
    · have hmodule : s.node.kind ≠ "module" := by simp [hkind]
      rw [Admitted, if_neg hmodule, Admits, List.forall_mem_cons]
      by_cases hon : s.OnHeader first
      · have hheader : s.headerRow = some first.start.row := hon
        rw [if_pos hheader, admits_onHeader_iff htail]
        simp only [outOfPlace_iff_of_onHeader hon, not_not]
        constructor
        · rintro rfl
          exact ⟨hon, fun c hc => absurd hc List.not_mem_nil⟩
        · rintro ⟨-, hothers⟩
          exact List.eq_nil_iff_forall_not_mem.mpr fun c hc => htail c hc (hothers c hc)
      · have hheader : s.headerRow ≠ some first.start.row := hon
        rw [if_neg hheader, admits_known_iff htail, ← allows_of_not_module hmodule,
          not_outOfPlace_iff hon hon]
        constructor
        · rintro ⟨-, -, hallows, hcolumn⟩
          refine ⟨⟨hallows rfl, fun _ => rfl⟩, fun c hc => ?_⟩
          rw [not_outOfPlace_iff hon (htail c hc), hcolumn c hc]
          exact ⟨hallows rfl, fun _ => rfl⟩
        · rintro ⟨⟨hallows, -⟩, hothers⟩
          refine ⟨rfl, by simp, fun _ => hallows, fun c hc => ?_⟩
          exact ((not_outOfPlace_iff hon (htail c hc)).mp (hothers c hc)).2 hallows

/-- A module or block is judged by a pass over its nodes that begins with some margin. -/
theorem exists_margin (hkind : s.node.kind = "module" ∨ s.node.kind = "block") : ∃ m : Margin,
    misindented? s.parent s.before s.node = misplaced? m s.node.namedChildren ∧
      m.previousRow = none ∧
      ∀ cs, s.Admitted cs ↔ Admits m.headerRow m.outer m.column m.onHeader cs := by
  rcases hkind with hkind | hkind
  · exact ⟨_, by rw [misindented?, if_pos hkind], rfl, fun cs => by rw [Admitted, if_pos hkind]⟩
  · have hmodule : s.node.kind ≠ "module" := by simp [hkind]
    refine ⟨_, by rw [misindented?, if_neg hmodule, if_pos hkind], rfl, fun cs => ?_⟩
    rw [Admitted, if_neg hmodule, headerRow, if_pos hkind]

/-- A module or block of which nothing is refused has no statement out of place. -/
theorem misplaced_of_misindented?_eq_none (hlaid : root.LaidOut) (hs : s ∈ root.spots)
    (h : misindented? s.parent s.before s.node = none) : s.misplaced = [] := by
  refine List.eq_nil_iff_forall_not_mem.mpr fun c hc => ?_
  obtain ⟨hkind, hstarts, first, hfirst, hplace⟩ := mem_misplaced.mp hc
  obtain ⟨m, hpass, hrow, hadmits⟩ := exists_margin hkind
  have hadmitted : s.Admitted s.starts := by
    rw [hpass, misplaced?_eq_none_iff, hrow] at h
    exact (hadmits s.starts).mpr h
  rw [admitted_iff hlaid hs hkind (List.prefix_refl _)] at hadmitted
  exact hadmitted c hstarts first hfirst hplace

/-- Statements that start a line do so one after the other. -/
theorem pairwise_starts (hlaid : root.LaidOut) (hs : s ∈ root.spots) :
    s.starts.Pairwise fun a b => a.start ≤ b.start := by
  have hnode := Node.node_mem_preorder hs
  refine ((hlaid.inOrder _ hnode).sublist s.starts_sublist).imp_of_mem fun {a b} ha _ hab => ?_
  have hforward := hlaid.forward a (Node.child_mem_preorder hnode (s.starts_sublist.subset ha))
  exact Position.le_trans hforward hab

/-- Of a module or block the first statement out of place is refused. -/
theorem of_misindented?_eq_some (hlaid : root.LaidOut) (hs : s ∈ root.spots) {line : Nat}
    {fault : Fault} (h : misindented? s.parent s.before s.node = some (line, fault)) :
    ∃ n ∈ s.misplaced, startLine n = line ∧ ∀ m ∈ s.misplaced, line ≤ startLine m := by
  have hkind : s.node.kind = "module" ∨ s.node.kind = "block" := by
    by_contra hnot
    rw [not_or] at hnot
    rw [misindented?, if_neg hnot.1, if_neg hnot.2] at h
    cases h
  obtain ⟨m, hpass, hrow, hadmits⟩ := exists_margin hkind
  rw [hpass] at h
  obtain ⟨placed, c, later, hstarts, hline, hplaced, hnot⟩ := exists_refused h
  rw [hrow] at hstarts
  rw [← hadmits] at hplaced hnot
  change s.starts = placed ++ c :: later at hstarts
  have hbegin : placed ++ [c] <+: s.starts := ⟨later, by rw [hstarts]; simp⟩
  rw [admitted_iff hlaid hs hkind ((List.prefix_append _ _).trans hbegin)] at hplaced
  rw [admitted_iff hlaid hs hkind hbegin, List.forall_mem_append, List.forall_mem_singleton,
    not_and] at hnot
  have hc : c ∈ s.misplaced := by
    refine mem_misplaced.mpr ⟨hkind, by rw [hstarts]; simp, ?_⟩
    by_contra hnone
    exact hnot hplaced fun first hfirst hplace => hnone ⟨first, hfirst, hplace⟩
  refine ⟨c, hc, hline, fun m hm => ?_⟩
  obtain ⟨-, hm, first, hfirst, hplace⟩ := mem_misplaced.mp hm
  have hordered := pairwise_starts hlaid hs
  rw [hstarts] at hm hordered
  rcases List.mem_append.mp hm with hm | hm
  · exact absurd hplace (hplaced m hm first hfirst)
  · rcases List.mem_cons.mp hm with rfl | hm
    · exact Nat.le_of_eq hline.symm
    · have hafter := (List.pairwise_cons.mp (List.pairwise_append.mp hordered).2.1).1 m hm
      rw [← hline]
      exact startLine_le hafter

/-! ## Offences of one node -/

theorem node_or_child_of_mem_offences {n : Node} (hn : n ∈ s.offences) :
    n = s.node ∨ n ∈ s.node.children := by
  rcases mem_offences.mp hn with ⟨-, rfl⟩ | hn
  · exact .inl rfl
  · exact .inr (s.starts_sublist.subset (mem_misplaced.mp hn).2.1)

/-- The offences of a node start inside of it. -/
theorem inside_of_mem_offences (hlaid : root.LaidOut) (hs : s ∈ root.spots) {n : Node}
    (hn : n ∈ s.offences) : s.node.start ≤ n.start ∧ n.start ≤ s.node.stop := by
  have hnode := Node.node_mem_preorder hs
  rcases node_or_child_of_mem_offences hn with rfl | hn
  · exact ⟨Position.le_refl _, hlaid.forward _ hnode⟩
  · obtain ⟨hstart, hstop⟩ := hlaid.encloses _ hnode n hn
    have hforward := hlaid.forward n (Node.child_mem_preorder hnode hn)
    exact ⟨hstart, Position.le_trans hforward hstop⟩

theorem offences_of_offence?_eq_none (hlaid : root.LaidOut) (hs : s ∈ root.spots)
    (h : offence? s.parent s.before s.node = none) : s.offences = [] := by
  unfold offence? at h
  split at h
  · cases h
  · next hold =>
    rw [oldConstruct?_eq_none_iff_not_isOld] at hold
    rw [offences, if_neg hold, List.nil_append]
    exact misplaced_of_misindented?_eq_none hlaid hs h

/-- For a node is reported the first of its offences. -/
theorem of_offence?_eq_some (hlaid : root.LaidOut) (hs : s ∈ root.spots) {line : Nat}
    {fault : Fault} (h : offence? s.parent s.before s.node = some (line, fault)) :
    ∃ n ∈ s.offences, startLine n = line ∧ (∀ m ∈ s.offences, line ≤ startLine m) ∧
      (s.node.IsOld → n = s.node) := by
  unfold offence? at h
  split at h
  · next found hold =>
    have hisOld : s.node.IsOld := by
      by_contra hnot
      rw [(oldConstruct?_eq_none_iff_not_isOld _).mpr hnot] at hold
      cases hold
    obtain ⟨rfl, rfl⟩ := Prod.mk.inj (Option.some.inj h)
    exact ⟨s.node, mem_offences.mpr (.inl ⟨hisOld, rfl⟩), rfl,
      fun m hm => startLine_le (inside_of_mem_offences hlaid hs hm).1, fun _ => rfl⟩
  · next hold =>
    rw [oldConstruct?_eq_none_iff_not_isOld] at hold
    obtain ⟨n, hn, hline, hleast⟩ := of_misindented?_eq_some hlaid hs h
    rw [offences, if_neg hold, List.nil_append]
    exact ⟨n, hn, hline, hleast, fun hisOld => absurd hisOld hold⟩

/-! ## Offences of other nodes -/

/-- The nodes of a tree that is laid out follow each other in their surroundings too. -/
theorem pairwise_spots (hlaid : root.LaidOut) :
    root.spots.Pairwise fun s t => s.node.Follows t.node := by
  have hnodes := hlaid.pairwise_preorder
  rwa [← Node.map_node_spots, List.pairwise_map] at hnodes

/-- An offence of a node is above one of an earlier node only from inside a child of that one,
which has ended where the offence starts. -/
theorem startLine_le_or_inside (hlaid : root.LaidOut) (hs : s ∈ root.spots) {t : Spot}
    (ht : t ∈ root.spots) (hfollows : s.node.Follows t.node) {n m : Node} (hn : n ∈ s.offences)
    (hm : m ∈ t.offences) : startLine n ≤ startLine m ∨
      n ≠ s.node ∧ ∃ c ∈ s.node.children, c.stop ≤ n.start ∧ t.node ∈ c.preorder := by
  have hnode := Node.node_mem_preorder hs
  have hstart := (inside_of_mem_offences hlaid ht hm).1
  rcases hfollows with ⟨c, hc, hinside⟩ | hafter
  · have hlaidc := hlaid.subtree (Node.child_mem_preorder hnode hc)
    have hcm : c.start ≤ m.start :=
      Position.le_trans (hlaidc.inside t.node hinside).1 hstart
    by_cases hself : n = s.node
    · subst hself
      exact .inl (startLine_le (Position.le_trans (hlaid.encloses _ hnode c hc).1 hcm))
    by_cases hsame : c = n
    · subst hsame
      exact .inl (startLine_le hcm)
    have hchild := (node_or_child_of_mem_offences hn).resolve_left hself
    rcases hlaid.beside hnode hc hchild hsame with hbefore | hafter
    · exact .inr ⟨hself, c, hc, hbefore, hinside⟩
    · have hforward := hlaid.forward n (Node.child_mem_preorder hnode hchild)
      exact .inl (startLine_le (Position.le_trans hforward (Position.le_trans hafter hcm)))
  · have hnm := Position.le_trans (inside_of_mem_offences hlaid hs hn).2 hafter
    exact .inl (startLine_le (Position.le_trans hnm hstart))

end Spot

end CodeAtlas.Syntax

namespace CodeAtlas.Source

open CodeAtlas.Syntax CodeAtlas.Text

/-! ## What is reported of a tree -/

variable {root : Node}

theorem fault?_eq_none_iff_offences_eq_nil (hlaid : root.LaidOut) :
    fault? false root = none ↔ root.offences = [] := by
  rw [fault?_eq_none_iff_offence?, Node.offences, List.flatMap_eq_nil_iff]
  refine forall₂_congr fun s hs => ⟨Spot.offences_of_offence?_eq_none hlaid hs, fun hnil => ?_⟩
  cases hoffence : offence? s.parent s.before s.node with
  | none => rfl
  | some found =>
    obtain ⟨n, hn, -⟩ := Spot.of_offence?_eq_some hlaid hs hoffence
    rw [hnil] at hn
    cases hn

/-- What is reported is the first offence of the first node that has any. -/
theorem of_fault?_eq_some (hlaid : root.LaidOut) {line : Option Nat} {fault : Fault}
    (h : fault? false root = some (line, fault)) :
    ∃ earlier s later n, root.spots = earlier ++ s :: later ∧
      (∀ t ∈ earlier, t.offences = []) ∧ n ∈ s.offences ∧ line = some (startLine n) ∧
      (∀ m ∈ s.offences, startLine n ≤ startLine m) ∧ (s.node.IsOld → n = s.node) := by
  obtain ⟨⟨row, fault⟩, hfound, heq⟩ := Option.map_eq_some_iff.mp h
  obtain ⟨rfl, rfl⟩ := Prod.mk.inj heq
  rw [firstOffence?_eq_findSome?, List.findSome?_eq_some_iff] at hfound
  obtain ⟨earlier, s, later, hspots, hoffence, hnone⟩ := hfound
  have hmem : ∀ t, t ∈ root.spots ↔ t ∈ earlier ∨ t = s ∨ t ∈ later := fun t => by
    rw [Node.spots, hspots, List.mem_append, List.mem_cons]
  have hs : s ∈ root.spots := (hmem s).mpr (.inr (.inl rfl))
  obtain ⟨n, hn, rfl, hleast, hself⟩ := Spot.of_offence?_eq_some hlaid hs hoffence
  refine ⟨earlier, s, later, n, hspots, fun t ht => ?_, hn, rfl, hleast, hself⟩
  exact Spot.offences_of_offence?_eq_none hlaid ((hmem t).mpr (.inl ht)) (hnone t ht)

/-- Nothing but what stands before it in the same module or block is above what is reported. -/
theorem startLine_le_or_before (hlaid : root.LaidOut) {earlier later : List Spot} {s : Spot}
    (hspots : root.spots = earlier ++ s :: later) (hearlier : ∀ t ∈ earlier, t.offences = [])
    {n : Node} (hn : n ∈ s.offences) (hleast : ∀ m ∈ s.offences, startLine n ≤ startLine m)
    {t : Spot} (ht : t ∈ root.spots) {m : Node} (hm : m ∈ t.offences) :
    startLine n ≤ startLine m ∨
      n ≠ s.node ∧ ∃ c ∈ s.node.children, c.stop ≤ n.start ∧ t.node ∈ c.preorder := by
  have hs : s ∈ root.spots := by simp [hspots]
  have hpairs := Spot.pairwise_spots hlaid
  rw [hspots, List.pairwise_append, List.pairwise_cons] at hpairs
  have hplace := ht
  rw [hspots, List.mem_append, List.mem_cons] at hplace
  rcases hplace with hbefore | rfl | hafter
  · rw [hearlier t hbefore] at hm
    cases hm
  · exact .inl (hleast m hm)
  · exact Spot.startLine_le_or_inside hlaid hs ht (hpairs.2.1.1 t hafter) hn hm

/-- A tree is refused exactly if it has an offence, and one of the first node that has any is
reported. It is on the first line with an offence if and only if the nodes that stand before it
in the same module or block have none on an earlier line, and always if it is a construct of
Python 2. -/
theorem reported_first_iff (hlaid : root.LaidOut) :
    (fault? false root = none ↔ root.offences = []) ∧
    ∀ (line : Option Nat) (fault : Fault), fault? false root = some (line, fault) →
      ∃ earlier s later n, root.spots = earlier ++ s :: later ∧
        (∀ t ∈ earlier, t.offences = []) ∧ n ∈ s.offences ∧ line = some (startLine n) ∧
        ((∀ m ∈ root.offences, startLine n ≤ startLine m) ↔
          ∀ c ∈ s.node.children, c.stop ≤ n.start → ∀ t ∈ root.spots, t.node ∈ c.preorder →
            ∀ m ∈ t.offences, startLine n ≤ startLine m) ∧
        (s.node.IsOld → ∀ m ∈ root.offences, startLine n ≤ startLine m) := by
  refine ⟨fault?_eq_none_iff_offences_eq_nil hlaid, fun line fault h => ?_⟩
  obtain ⟨earlier, s, later, n, hspots, hearlier, hn, hline, hleast, hself⟩ :=
    of_fault?_eq_some hlaid h
  refine ⟨earlier, s, later, n, hspots, hearlier, hn, hline, ⟨?_, ?_⟩, ?_⟩
  · intro hall c _ _ t ht _ m hm
    exact hall m (List.mem_flatMap.mpr ⟨t, ht, hm⟩)
  · intro hinside m hm
    obtain ⟨t, ht, hm⟩ := List.mem_flatMap.mp hm
    rcases startLine_le_or_before hlaid hspots hearlier hn hleast ht hm with
      hle | ⟨-, c, hc, hbefore, hbelow⟩
    · exact hle
    · exact hinside c hc hbefore t ht hbelow m hm
  · intro hold m hm
    obtain ⟨t, ht, hm⟩ := List.mem_flatMap.mp hm
    rcases startLine_le_or_before hlaid hspots hearlier hn hleast ht hm with hle | ⟨hne, -⟩
    · exact hle
    · exact absurd (hself hold) hne

/-- The tree of `print 'a'` with an indented `y` on the line below. -/
def printThenIndented : Node :=
  let token (kind : String) (named : Bool) (start stop : Position) (text : String) : Node :=
    .mk ⟨kind, named, false, false, none, start, stop, text⟩ []
  .mk ⟨"module", true, false, false, none, .zero, ⟨14, 2, 0⟩, "print 'a'\n  y\n"⟩
    [ .mk ⟨"print_statement", true, false, false, none, .zero, ⟨9, 0, 9⟩, "print 'a'"⟩
        [ token "print" false .zero ⟨5, 0, 5⟩ "print",
          .mk ⟨"string", true, false, false, some "argument", ⟨6, 0, 6⟩, ⟨9, 0, 9⟩, "'a'"⟩
            [ token "string_start" true ⟨6, 0, 6⟩ ⟨7, 0, 7⟩ "'",
              token "string_content" true ⟨7, 0, 7⟩ ⟨8, 0, 8⟩ "a",
              token "string_end" true ⟨8, 0, 8⟩ ⟨9, 0, 9⟩ "'" ] ],
      .mk ⟨"expression_statement", true, false, false, none, ⟨12, 1, 2⟩, ⟨13, 1, 3⟩, "y"⟩
        [token "identifier" true ⟨12, 1, 2⟩ ⟨13, 1, 3⟩ "y"] ]

/-- The line below is reported, though the `print` above it is an offence : it stands in the
module before the statement that is reported. -/
theorem reported_printThenIndented : printThenIndented.LaidOut ∧
    (∀ n ∈ printThenIndented.preorder, n.info.broken = false) ∧
    fault? false printThenIndented = some (some 2, .unexpectedIndent) ∧
    (∃ m ∈ printThenIndented.offences, startLine m < 2) ∧
    ∃ s ∈ printThenIndented.spots, ¬s.node.IsOld ∧ ∃ n ∈ s.offences, startLine n = 2 ∧
      ∃ c ∈ s.node.children, c.stop ≤ n.start ∧
        ∃ t ∈ printThenIndented.spots, t.node ∈ c.preorder ∧ ∃ m ∈ t.offences, startLine m < 2 := by
  have hlaid : printThenIndented.LaidOut := by decide +kernel
  have hfault : fault? false printThenIndented = some (some 2, .unexpectedIndent) := by
    decide +kernel
  have habove : ∃ m ∈ printThenIndented.offences, startLine m < 2 := by decide +kernel
  refine ⟨hlaid, by decide +kernel, hfault, habove, ?_⟩
  obtain ⟨earlier, s, later, n, hspots, -, hn, hline, hiff, hold⟩ :=
    (reported_first_iff hlaid).2 _ _ hfault
  have hline : startLine n = 2 := (Option.some.inj hline).symm
  have hnot : ¬∀ m ∈ printThenIndented.offences, startLine n ≤ startLine m := fun hall => by
    obtain ⟨m, hm, hlt⟩ := habove
    have hle := hall m hm
    omega
  refine ⟨s, by simp [hspots], fun h => hnot (hold h), n, hn, hline, ?_⟩
  rw [hiff, hline] at hnot
  simp only [not_forall, Nat.not_le] at hnot
  obtain ⟨c, hc, hbefore, t, ht, hbelow, m, hm, hlt⟩ := hnot
  exact ⟨c, hc, hbefore, t, ht, hbelow, m, hm, hlt⟩

end CodeAtlas.Source
