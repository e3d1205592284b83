import CodeAtlas.Proofs.Dependencies
import CodeAtlas.Proofs.Grammatical
import CodeAtlas.Proofs.PythonFiles

/-!
# How the names in the imports are spelled

The imports of a module are taken from the text of its import statements. A dotted name with
nothing between its parts is spelled as its identifiers joined by dots (`IsDotted.text_eq`);
what stands between them is seen in its text (`IsDotted.exists_isSpacing`), and so in an import
(`exists_isSpacing_of_mem_dottedNames`).

`imports_qualified_iff` tells from the dotted names of the import statements whether the imports
are qualified names, and what they are if so.
-/

namespace CodeAtlas.Syntax.Node

/-- Whether nothing stands between the children of a node. -/
def Unspaced (n : Node) : Prop :=
  (∀ c ∈ n.children, ¬ c.info.extra) ∧
    n.children.IsChain fun a b => a.stop.byte = b.start.byte

instance (n : Node) : Decidable n.Unspaced :=
  inferInstanceAs (Decidable ((∀ c ∈ n.children, ¬ c.info.extra) ∧
    n.children.IsChain fun a b => a.stop.byte = b.start.byte))

end CodeAtlas.Syntax.Node

namespace CodeAtlas.Source

open CodeAtlas.Grammar CodeAtlas.Syntax CodeAtlas.Text

/-! ## Qualified names -/

/-- One or more identifiers joined by dots, after which there may be a star. -/
def IsQualifiedName (s : String) : Prop :=
  ∃ names : List String, names ≠ [] ∧ (∀ x ∈ names, isIdentifier x) ∧
    (s = ".".intercalate names ∨ s = ".".intercalate (names ++ ["*"]))

/-- There are no blanks, comments and continued lines in joined identifiers and stars. -/
theorem not_isSpacing_of_mem_intercalate {names : List String}
    (h : ∀ x ∈ names, isIdentifier x ∨ x = "*") {c : Char}
    (hc : c ∈ (".".intercalate names).toList) : ¬ IsSpacing c := by
  have hdot : ¬ IsSpacing '.' ∧ ¬ IsSpacing '*' := by simp [IsSpacing, startsExtra, isBlank]
  obtain hc | ⟨x, hx, hc⟩ := mem_toList_intercalate hc
  · rw [show c = '.' by simpa using hc]
    exact hdot.1
  · obtain hident | rfl := h x hx
    · exact fun hspacing => not_isIdentifierContinue_of_isSpacing hspacing
        (isIdentifierContinue_of_isIdentifier hident hc)
    · rw [show c = '*' by simpa using hc]
      exact hdot.2

theorem IsQualifiedName.not_isSpacing {s : String} (h : IsQualifiedName s) :
    ∀ c ∈ s.toList, ¬ IsSpacing c := by
  intro c hc
  obtain ⟨names, -, hnames, rfl | rfl⟩ := h
  · exact not_isSpacing_of_mem_intercalate (fun x hx => .inl (hnames x hx)) hc
  · refine not_isSpacing_of_mem_intercalate (fun x hx => ?_) hc
    obtain hx | hx := List.mem_append.mp hx
    · exact .inl (hnames x hx)
    · exact .inr (List.mem_singleton.mp hx)

theorem toList_intercalate_cons (first : String) (rest : List String) :
    (".".intercalate (first :: rest)).toList =
      first.toList ++ rest.flatMap fun s => '.' :: s.toList := by
  induction rest generalizing first with
  | nil => simp
  | cons s rest ih => simp [ih]

theorem not_isQualifiedName_star : ¬ IsQualifiedName "*" := by
  rintro ⟨names, hne, hnames, hstar⟩
  obtain ⟨first, rest, rfl⟩ := List.exists_cons_of_ne_nil hne
  have hfirst := hnames first List.mem_cons_self
  have hjoined : ∃ others, "*" = ".".intercalate (first :: others) := by
    obtain hstar | hstar := hstar
    · exact ⟨rest, hstar⟩
    · exact ⟨rest ++ ["*"], hstar⟩
  obtain ⟨others, hjoined⟩ := hjoined
  have hlist := congrArg String.toList hjoined
  rw [toList_intercalate_cons] at hlist
  -- the first identifier has a character, which is the star
  obtain ⟨c, hc⟩ := List.exists_mem_of_ne_nil first.toList
    (by simpa using ne_empty_of_isIdentifier hfirst)
  have : c ∈ "*".toList := hlist ▸ List.mem_append_left _ hc
  rw [show c = '*' by simpa using this] at hc
  exact absurd (isIdentifierContinue_of_isIdentifier hfirst hc) (by decide)

/-! ## The text of a row of nodes -/

/-- Nodes with nothing between them are spelled by their texts. -/
theorem Spelled.toList_eq {ns : List Node} {s : String} (h : Spelled ns s)
    (hchain : ns.IsChain fun a b => a.stop.byte = b.start.byte) :
    s.toList = ns.flatMap (·.text.toList) := by
  induction h with
  | one n => simp
  | cons hblank hplace h ih =>
    rename_i n m ns gap s
    rw [List.isChain_cons_cons] at hchain
    have hgap : gap = "" := by
      have : gap.utf8ByteSize = 0 := by omega
      exact String.utf8ByteSize_eq_zero_iff.mp this
    rw [hgap, String.append_empty, String.toList_append, ih hchain.2]
    rfl

/-- What stands between nodes is seen in their text. -/
theorem Spelled.exists_isSpacing {ns : List Node} {s : String} (h : Spelled ns s)
    (hextras : ∀ n ∈ ns, n.info.extra → IsExtra n)
    (hspaced : (∃ n ∈ ns, n.info.extra) ∨ ¬ ns.IsChain fun a b => a.stop.byte = b.start.byte) :
    ∃ c ∈ s.toList, IsSpacing c := by
  induction h with
  | one n =>
    obtain ⟨m, hm, hextra⟩ | hchain := hspaced
    · rw [List.mem_singleton.mp hm] at hextra
      obtain ⟨c, hc, hstarts⟩ := (hextras n List.mem_cons_self hextra).exists_startsExtra
      exact ⟨c, hc, .inr hstarts⟩
    · exact absurd (.singleton n) hchain
  | cons hblank hplace h ih =>
    rename_i n m ns gap s
    -- the first of the nodes, the blanks after it, or what is further on
    by_cases hfirst : n.info.extra
    · obtain ⟨c, hc, hstarts⟩ := (hextras n List.mem_cons_self hfirst).exists_startsExtra
      exact ⟨c, by simp [hc], .inr hstarts⟩
    by_cases hgap : gap = ""
    · have hrest : (∃ k ∈ m :: ns, k.info.extra) ∨
          ¬ (m :: ns).IsChain fun a b => a.stop.byte = b.start.byte := by
        obtain ⟨k, hk, hextra⟩ | hchain := hspaced
        · rcases List.mem_cons.mp hk with rfl | hk
          · exact absurd hextra hfirst
          · exact .inl ⟨k, hk, hextra⟩
        · refine .inr fun hc => hchain (List.isChain_cons_cons.mpr ⟨?_, hc⟩)
          simpa [hgap] using hplace
      obtain ⟨c, hc, hspacing⟩ := ih (fun k hk => hextras k (List.mem_cons_of_mem _ hk)) hrest
      exact ⟨c, by simp [hc], hspacing⟩
    · obtain ⟨c, hc⟩ := List.exists_mem_of_ne_nil gap.toList (by simpa using hgap)
      exact ⟨c, by simp [hc], .inl (hblank c hc)⟩

/-! ## Dotted names -/

/-- The identifiers of a dotted name. -/
def segments (n : Node) : List String := (n.parts.filter (·.kind == "identifier")).map (·.text)

/-- A further identifier of a dotted name has one dot before it. -/
theorem exists_dot_of_yields {row : List Node}
    (h : grammar.Yields {} (.seq [Rules.t ".", Rules.r "identifier"]) row) :
    ∃ dot name, row = [dot, name] ∧ dot.kind = "." ∧ dot.text = "." ∧ name.kind = "identifier" := by
  obtain ⟨_, _, hdot, hrest, rfl⟩ := Definition.yields_seq_cons.mp h
  obtain ⟨_, _, hname, hnil, rfl⟩ := Definition.yields_seq_cons.mp hrest
  obtain rfl := Definition.yields_seq_nil.mp hnil
  obtain ⟨dot, rfl, hlook, htext⟩ := Definition.yields_token_of_literal? rfl rfl hdot
  obtain ⟨name, rfl, hshown⟩ := Definition.yields_ref_of_refOutline?
    (o := ⟨"identifier", true, none⟩) (by decide +kernel) hname
  exact ⟨dot, name, rfl, congrArg Outline.kind hlook, htext, congrArg Outline.kind hshown⟩

theorem flatMap_text_of_dots {rows : List (List Node)}
    (h : ∀ row ∈ rows, grammar.Yields {} (.seq [Rules.t ".", Rules.r "identifier"]) row) :
    rows.flatten.flatMap (·.text.toList) =
      ((rows.flatten.filter (·.kind == "identifier")).map (·.text)).flatMap
        fun s => '.' :: s.toList := by
  induction rows with
  | nil => rfl
  | cons row rows ih =>
    obtain ⟨hrow, hrows⟩ := List.forall_mem_cons.mp h
    obtain ⟨dot, name, rfl, hdot, htext, hname⟩ := exists_dot_of_yields hrow
    simp [hdot, htext, hname, ih hrows]

/-- The parts of a dotted name are its identifiers with dots between them. -/
theorem Grammatical.parts_of_dotted {root n : Node} (h : Grammatical root)
    (hn : n ∈ root.preorder) (hnamed : n.info.named) (hkind : n.kind = "dotted_name") :
    segments n ≠ [] ∧
      n.parts.flatMap (·.text.toList) = (".".intercalate (segments n)).toList := by
  have hbody : grammar.ownBody? n.kind =
      some (Rules.prec 1 (.sepBy1 (Rules.r "identifier") (Rules.t "."))) := by
    rw [hkind]
    rfl
  have hparts := Definition.yields_prec.mp (h.rules n hn hnamed _ hbody)
  obtain ⟨_, _, hhead, hrest, hsplit⟩ := Definition.yields_seq_cons.mp hparts
  obtain ⟨_, _, hmany, hnil, rfl⟩ := Definition.yields_seq_cons.mp hrest
  obtain rfl := Definition.yields_seq_nil.mp hnil
  obtain ⟨first, rfl, hshown⟩ := Definition.yields_ref_of_refOutline?
    (o := ⟨"identifier", true, none⟩) (by decide +kernel) hhead
  obtain ⟨rows, hrows, rfl⟩ := Definition.exists_rows_of_many hmany
  have hsegments : segments n =
      first.text :: (rows.flatten.filter (·.kind == "identifier")).map (·.text) := by
    have hfirst : first.kind = "identifier" := congrArg Outline.kind hshown
    simp [segments, hsplit, hfirst]
  refine ⟨by simp [hsegments], ?_⟩
  rw [hsegments, hsplit, toList_intercalate_cons, List.append_nil, List.singleton_append,
    List.flatMap_cons, flatMap_text_of_dots hrows]

/-- A dotted name of a tree. -/
structure IsDotted (root n : Node) : Prop where
  mem : n ∈ root.preorder
  named : n.info.named
  kind : n.kind = "dotted_name"

namespace IsDotted

variable {root n : Node}

theorem segments_ne_nil (hn : IsDotted root n) (h : Grammatical root) : segments n ≠ [] :=
  (h.parts_of_dotted hn.mem hn.named hn.kind).1

theorem isIdentifier_of_mem (hn : IsDotted root n) (h : Grammatical root) :
    ∀ s ∈ segments n, isIdentifier s := by
  intro s hs
  obtain ⟨c, hc, rfl⟩ := List.mem_map.mp hs
  obtain ⟨hc, hkind⟩ := List.mem_filter.mp hc
  have hmem := Node.child_mem_preorder hn.mem (List.mem_filter.mp hc).1
  exact h.words c hmem (beq_iff_eq.mp hkind)

/-- The text of a name with nothing in between is the name. -/
theorem text_eq (hn : IsDotted root n) (h : Grammatical root) (hunspaced : n.Unspaced) :
    n.text = ".".intercalate (segments n) := by
  have hparts : n.parts = n.children := by
    rw [Node.parts, List.filter_eq_self]
    simpa using hunspaced.1
  rw [← String.toList_inj, ← (h.parts_of_dotted hn.mem hn.named hn.kind).2, hparts]
  exact (h.spelled n hn.mem hn.kind).toList_eq hunspaced.2

/-- What stands in between is seen in the text of the name. -/
theorem exists_isSpacing (hn : IsDotted root n) (h : Grammatical root) (hspaced : ¬ n.Unspaced) :
    ∃ c ∈ n.text.toList, IsSpacing c := by
  refine (h.spelled n hn.mem hn.kind).exists_isSpacing
    (fun c hc => h.extras c (Node.child_mem_preorder hn.mem hc)) ?_
  by_cases hextra : ∃ c ∈ n.children, c.info.extra
  · exact .inl hextra
  · exact .inr fun hchain => hspaced ⟨fun c hc hc' => hextra ⟨c, hc, hc'⟩, hchain⟩

end IsDotted

/-! ## Import statements -/

/-- The dotted name in what an import statement names. -/
def dottedName? (n : Node) : Option Node :=
  if n.kind = "dotted_name" then some n else n.namedChildren.find? (·.kind == "dotted_name")

/-- The identifiers of what an import statement names. -/
def path (n : Node) : List String := ((dottedName? n).map segments).getD []

/-- How the nodes look that an import statement reaches by its fields. -/
def importOutline (o : Outline) : Bool :=
  (o.field != some "name" || o.named && ["dotted_name", "aliased_import"].contains o.kind) &&
    (o.field != some "module_name" ||
      o.named && ["dotted_name", "relative_import"].contains o.kind)

theorem importOutline_name {o : Outline} (h : importOutline o) (hfield : o.field = some "name") :
    o.named ∧ (o.kind = "dotted_name" ∨ o.kind = "aliased_import") := by
  simpa [importOutline, hfield] using h

theorem importOutline_module {o : Outline} (h : importOutline o)
    (hfield : o.field = some "module_name") :
    o.named ∧ (o.kind = "dotted_name" ∨ o.kind = "relative_import") := by
  simpa [importOutline, hfield] using h

/-- The kinds of import statements. -/
def importKinds : List String :=
  ["import_statement", "import_from_statement", "future_import_statement"]

theorem everyPart_importOutline : ∀ kind ∈ importKinds, grammar.everyPart kind importOutline := by
  decide +kernel

/-- In an import under another name, the field `name` reaches the dotted name alone. -/
theorem everyPart_aliased_import :
    grammar.everyPart "aliased_import" fun o =>
      (o.field == some "name") == (o.named && o.kind == "dotted_name") := by
  decide +kernel

theorem somePart_aliased_import :
    grammar.somePart "aliased_import" fun o => o.field == some "name" := by
  decide +kernel

theorem somePart_import_from :
    grammar.somePart "import_from_statement" fun o =>
      o.field == some "name" || o.named && o.kind == "wildcard_import" := by
  decide +kernel

section

variable {root n m : Node} (h : Grammatical root) (hn : n ∈ root.preorder) (hnamed : n.info.named)
include h hn hnamed

/-- An import under another name has its dotted name in the field `name`. -/
theorem Grammatical.exists_dotted_of_aliased (hkind : n.kind = "aliased_import") :
    ∃ d, n.field? "name" = some d ∧ dottedName? n = some d ∧ IsDotted root d := by
  have hfields : n.fieldChildren "name" = n.namedChildren.filter (·.kind == "dotted_name") := by
    rw [Node.fieldChildren, Node.namedChildren, List.filter_filter]
    refine List.filter_congr fun c hc => ?_
    by_cases hextra : c.info.extra
    · obtain ⟨hk, -, hfield, -⟩ := h.extras c (Node.child_mem_preorder hn hc) hextra
      have : c.kind ≠ "dotted_name" := by
        rintro heq
        rw [heq] at hk
        exact absurd hk (by decide)
      simp [hfield, this]
    · have := h.every_part hn hnamed hkind everyPart_aliased_import c
        (List.mem_filter.mpr ⟨hc, by simpa using hextra⟩)
      rw [beq_iff_eq] at this
      exact this.trans (Bool.and_comm _ _)
  obtain ⟨d, hd⟩ := h.exists_field hn hnamed hkind somePart_aliased_import
  refine ⟨d, hd, ?_, ?_⟩
  · rw [dottedName?, if_neg (by rw [hkind]; decide), ← List.head?_filter, ← hfields]
    exact hd
  · have hd := List.mem_of_mem_head? hd
    rw [hfields, Node.namedChildren, List.mem_filter, List.mem_filter] at hd
    exact ⟨Node.child_mem_preorder hn hd.1.1, hd.1.2, beq_iff_eq.mp hd.2⟩

variable (hkind : n.kind ∈ importKinds)
include hkind

theorem Grammatical.importOutline {field : String} (hm : m ∈ n.fieldChildren field) :
    importOutline m.outline :=
  h.every_part hn hnamed rfl (everyPart_importOutline n.kind hkind) m (h.mem_parts_of_field hn hm)

/-- Each name of an import statement is a dotted name, maybe under another name. -/
theorem Grammatical.exists_dotted_of_name (hm : m ∈ n.fieldChildren "name") :
    ∃ d, dottedName? m = some d ∧ IsDotted root d ∧ importedName m = d.text := by
  obtain ⟨hchild, hfield⟩ := List.mem_filter.mp hm
  have hmem := Node.child_mem_preorder hn hchild
  obtain ⟨hmnamed, hmkind⟩ :=
    importOutline_name (h.importOutline hn hnamed hkind hm) (beq_iff_eq.mp hfield)
  obtain hmkind | hmkind : m.kind = "dotted_name" ∨ m.kind = "aliased_import" := hmkind
  · refine ⟨m, if_pos hmkind, ⟨hmem, hmnamed, hmkind⟩, ?_⟩
    rw [importedName, if_neg (by rw [hmkind]; decide)]
  · obtain ⟨d, hd, hdotted, hisd⟩ := h.exists_dotted_of_aliased hmem hmnamed hmkind
    refine ⟨d, hdotted, hisd, ?_⟩
    rw [importedName, if_pos hmkind, hd]

/-- The module of an import statement is a dotted name, or is not named. -/
theorem Grammatical.importedModule_eq (hm : m ∈ n.fieldChildren "module_name") :
    (∀ d ∈ dottedName? m, IsDotted root d) ∧
      importedModule m = ((dottedName? m).map (·.text)).getD "" := by
  obtain ⟨hchild, hfield⟩ := List.mem_filter.mp hm
  have hmem := Node.child_mem_preorder hn hchild
  obtain ⟨hmnamed, hmkind⟩ :=
    importOutline_module (h.importOutline hn hnamed hkind hm) (beq_iff_eq.mp hfield)
  obtain hmkind | hmkind : m.kind = "dotted_name" ∨ m.kind = "relative_import" := hmkind
  · have hdotted : dottedName? m = some m := if_pos hmkind
    rw [hdotted, importedModule, if_neg (by rw [hmkind]; decide)]
    refine ⟨fun d hd => ?_, rfl⟩
    cases hd
    exact ⟨hmem, hmnamed, hmkind⟩
  · have hdotted : dottedName? m = m.namedChildren.find? (·.kind == "dotted_name") :=
      if_neg (by rw [hmkind]; decide)
    rw [hdotted, importedModule, if_pos hmkind]
    refine ⟨fun d hd => ?_, ?_⟩
    · obtain ⟨hdmem, hdnamed⟩ := List.mem_filter.mp (List.mem_of_find?_eq_some hd)
      exact ⟨Node.child_mem_preorder hmem hdmem, hdnamed, by simpa using List.find?_some hd⟩
    · cases m.namedChildren.find? (·.kind == "dotted_name") <;> rfl

end

/-! ## Paths of imports -/

/-- A name in a module, or by itself if the module is not named. -/
def qualify (module member : String) : String :=
  if module = "" then member else module ++ "." ++ member

theorem qualify_empty : qualify "" = id := by
  funext member
  exact if_pos rfl

theorem mem_toList_qualify_right {module member : String} {c : Char} (hc : c ∈ member.toList) :
    c ∈ (qualify module member).toList := by
  unfold qualify
  split_ifs
  · exact hc
  · simp [hc]

theorem mem_toList_qualify_left {module : String} {c : Char} (hc : c ∈ module.toList)
    (member : String) : c ∈ (qualify module member).toList := by
  unfold qualify
  split_ifs with hempty
  · simp [hempty] at hc
  · simp [hc]

/-- Joined paths are joined. -/
theorem qualify_intercalate {ms ps : List String} (hms : ∀ s ∈ ms, isIdentifier s)
    (hps : ps ≠ []) :
    qualify (".".intercalate ms) (".".intercalate ps) = ".".intercalate (ms ++ ps) := by
  have hempty : ".".intercalate ms = "" ↔ ms = [] :=
    intercalate_eq_empty_iff fun s hs => ne_empty_of_isIdentifier (hms s hs)
  by_cases hnil : ms = []
  · rw [hnil, String.intercalate_nil, qualify_empty, List.nil_append, id]
  · rw [qualify, if_neg (hempty.not.mpr hnil), String.intercalate_append_of_ne_nil hnil hps]

/-- The text that names the module of an import statement. -/
def moduleText (n : Node) : String :=
  if n.kind = "future_import_statement" then "__future__"
  else if n.kind = "import_from_statement" then
    ((n.field? "module_name").map importedModule).getD ""
  else ""

/-- Whether all names of a module are imported. -/
def ImportsAll (n : Node) : Prop :=
  n.kind ≠ "import_statement" ∧ ∃ c ∈ n.namedChildren, c.kind = "wildcard_import"

instance (n : Node) : Decidable (ImportsAll n) :=
  inferInstanceAs (Decidable
    (n.kind ≠ "import_statement" ∧ ∃ c ∈ n.namedChildren, c.kind = "wildcard_import"))

theorem importsOf_eq {n : Node} (hkind : n.kind ∈ importKinds) :
    importsOf n = ((n.fieldChildren "name").map importedName ++
      if ImportsAll n then ["*"] else []).map (qualify (moduleText n)) := by
  have hmembers (hne : n.kind ≠ "import_statement") :
      (if n.namedChildren.any (·.kind == "wildcard_import") then
        (n.fieldChildren "name").map importedName ++ ["*"]
      else (n.fieldChildren "name").map importedName) =
        (n.fieldChildren "name").map importedName ++ if ImportsAll n then ["*"] else [] := by
    by_cases hall : ∃ c ∈ n.namedChildren, c.kind = "wildcard_import"
    · rw [if_pos (by simpa using hall), if_pos ⟨hne, hall⟩]
    · rw [if_neg (by simpa using hall), if_neg (fun h => hall h.2), List.append_nil]
  simp only [importKinds, List.mem_cons, List.not_mem_nil, or_false] at hkind
  obtain hkind | hkind | hkind := hkind
  · simp [importsOf, ImportsAll, moduleText, qualify_empty, hkind]
  · rw [← hmembers (by simp [hkind])]
    cases hmodule : n.field? "module_name" with
    | none => simp [importsOf, moduleText, hkind, hmodule, qualify_empty]
    | some m => simp [importsOf, moduleText, hkind, hmodule, qualify]
  · rw [← hmembers (by simp [hkind])]
    simp [importsOf, moduleText, hkind, qualify]

/-- Something is imported from a module. -/
theorem Grammatical.exists_member {root n : Node} (h : Grammatical root) (hn : n ∈ root.preorder)
    (hnamed : n.info.named) (hkind : n.kind = "import_from_statement") :
    ∃ member, member ∈ (n.fieldChildren "name").map importedName ++
      if ImportsAll n then ["*"] else [] := by
  obtain ⟨c, hc, hlook⟩ := h.some_part hn hnamed hkind somePart_import_from
  have hchild := (List.mem_filter.mp hc).1
  obtain hname | hstar := Bool.or_eq_true_iff.mp hlook
  · have hc : c ∈ n.fieldChildren "name" := List.mem_filter.mpr ⟨hchild, hname⟩
    exact ⟨_, List.mem_append_left _ (List.mem_map_of_mem hc)⟩
  · obtain ⟨hcnamed, hckind⟩ := Bool.and_eq_true_iff.mp hstar
    have hall : ImportsAll n := ⟨by rw [hkind]; decide, c, List.mem_filter.mpr ⟨hchild, hcnamed⟩,
      beq_iff_eq.mp hckind⟩
    exact ⟨"*", List.mem_append_right _ (by simp [hall])⟩

/-- The path of the module of an import statement. -/
def modulePath (n : Node) : List String :=
  if n.kind = "future_import_statement" then ["__future__"]
  else if n.kind = "import_from_statement" then ((n.field? "module_name").map path).getD []
  else []

/-- The paths of what an import statement imports, a star standing for all of a module. -/
def importPaths (n : Node) : List (List String) :=
  if n.kind ∈ importKinds then
    ((n.fieldChildren "name").map path ++ if ImportsAll n then [["*"]] else []).map
      (modulePath n ++ ·)
  else []

/-- The dotted names in an import statement, other than those by which it calls them. -/
def dottedNames (n : Node) : List Node :=
  if n.kind ∈ importKinds then
    (n.fieldChildren "name" ++
      if n.kind = "import_from_statement" then (n.field? "module_name").toList else []).filterMap
        dottedName?
  else []

section

variable {root n : Node} (h : Grammatical root) (hn : n ∈ root.preorder) (hnamed : n.info.named)
  (hkind : n.kind ∈ importKinds)
include h hn hnamed hkind

theorem isIdentifier_of_mem_modulePath : ∀ s ∈ modulePath n, isIdentifier s := by
  intro s hs
  unfold modulePath at hs
  split_ifs at hs with hfuture hfrom
  · rw [List.mem_singleton.mp hs]
    decide
  · cases hmodule : n.field? "module_name" with
    | none => simp [hmodule] at hs
    | some m =>
      have hm := (h.importedModule_eq hn hnamed hkind (List.mem_of_mem_head? hmodule)).1
      rw [hmodule, Option.map_some, Option.getD_some, path] at hs
      cases hdotted : dottedName? m with
      | none => simp [hdotted] at hs
      | some d =>
        rw [hdotted, Option.map_some, Option.getD_some] at hs
        exact (hm d hdotted).isIdentifier_of_mem h s hs
  · cases hs

theorem path_of_name {m : Node} (hm : m ∈ n.fieldChildren "name") :
    path m ≠ [] ∧ ∀ s ∈ path m, isIdentifier s := by
  obtain ⟨d, hd, hisd, -⟩ := h.exists_dotted_of_name hn hnamed hkind hm
  rw [path, hd]
  exact ⟨hisd.segments_ne_nil h, hisd.isIdentifier_of_mem h⟩

variable (hunspaced : ∀ d ∈ dottedNames n, d.Unspaced)
include hunspaced

theorem importedName_eq {m : Node} (hm : m ∈ n.fieldChildren "name") :
    importedName m = ".".intercalate (path m) := by
  obtain ⟨d, hd, hisd, hname⟩ := h.exists_dotted_of_name hn hnamed hkind hm
  have hmem : d ∈ dottedNames n := by
    rw [dottedNames, if_pos hkind]
    exact List.mem_filterMap.mpr ⟨m, List.mem_append_left _ hm, hd⟩
  rw [hname, path, hd, hisd.text_eq h (hunspaced d hmem), Option.map_some, Option.getD_some]

theorem moduleText_eq : moduleText n = ".".intercalate (modulePath n) := by
  unfold moduleText modulePath
  split_ifs with hfuture hfrom
  · rfl
  · cases hmodule : n.field? "module_name" with
    | none => rfl
    | some m =>
      obtain ⟨hm, htext⟩ :=
        h.importedModule_eq hn hnamed hkind (List.mem_of_mem_head? hmodule)
      rw [Option.map_some, Option.map_some, Option.getD_some, Option.getD_some, htext, path]
      cases hdotted : dottedName? m with
      | none => rfl
      | some d =>
        have hmem : d ∈ dottedNames n := by
          rw [dottedNames, if_pos hkind, if_pos hfrom, hmodule]
          exact List.mem_filterMap.mpr ⟨m, List.mem_append_right _ (by simp), hdotted⟩
        exact (hm d hdotted).text_eq h (hunspaced d hmem)
  · rfl

/-- If nothing stands in the dotted names, the imports are the joined paths. -/
theorem importsOf_eq_map_importPaths : importsOf n = (importPaths n).map (".".intercalate ·) := by
  have hmodule := isIdentifier_of_mem_modulePath h hn hnamed hkind
  rw [importsOf_eq hkind, importPaths, if_pos hkind,
    moduleText_eq h hn hnamed hkind hunspaced, List.map_map, List.map_append, List.map_append,
    List.map_map, List.map_map]
  congr 1
  · refine List.map_congr_left fun m hm => ?_
    have hpath := path_of_name h hn hnamed hkind hm
    rw [Function.comp_apply, Function.comp_apply, Function.comp_apply,
      importedName_eq h hn hnamed hkind hunspaced hm, qualify_intercalate hmodule hpath.1]
  · split_ifs with hall
    · have := qualify_intercalate hmodule (List.cons_ne_nil "*" [])
      rw [String.intercalate_singleton] at this
      simp [this]
    · rfl

omit hunspaced

/-- A path is of identifiers, of which there is one at least, or a star is the last of it. -/
theorem of_mem_importPaths {p : List String} (hp : p ∈ importPaths n) :
    (p ≠ [] ∧ ∀ s ∈ p, isIdentifier s) ∨ ImportsAll n ∧ p = modulePath n ++ ["*"] := by
  rw [importPaths, if_pos hkind, List.mem_map] at hp
  obtain ⟨member, hmember, rfl⟩ := hp
  obtain hmember | hmember := List.mem_append.mp hmember
  · obtain ⟨m, hm, rfl⟩ := List.mem_map.mp hmember
    obtain ⟨hne, hident⟩ := path_of_name h hn hnamed hkind hm
    refine .inl ⟨by simp [hne], List.forall_mem_append.mpr ⟨?_, hident⟩⟩
    exact isIdentifier_of_mem_modulePath h hn hnamed hkind
  · split_ifs at hmember with hall
    · exact .inr ⟨hall, by rw [List.mem_singleton.mp hmember]⟩
    · cases hmember

theorem moduleText_eq_empty (hmodule : modulePath n = []) : moduleText n = "" := by
  unfold modulePath at hmodule
  unfold moduleText
  split_ifs at hmodule ⊢ with hfuture hfrom
  · cases hm : n.field? "module_name" with
    | none => rfl
    | some m =>
      obtain ⟨hdotted, htext⟩ :=
        h.importedModule_eq hn hnamed hkind (List.mem_of_mem_head? hm)
      rw [hm, Option.map_some, Option.getD_some, path] at hmodule
      cases hd : dottedName? m with
      | none => rw [Option.map_some, Option.getD_some, htext, hd, Option.map_none, Option.getD_none]
      | some d =>
        rw [hd, Option.map_some, Option.getD_some] at hmodule
        exact absurd hmodule ((hdotted d hd).segments_ne_nil h)
  · rfl

/-- What stands in a dotted name gets into an import. -/
theorem exists_isSpacing_of_mem_dottedNames {d : Node} (hd : d ∈ dottedNames n)
    (hspaced : ¬ d.Unspaced) : ∃ s ∈ importsOf n, ∃ c ∈ s.toList, IsSpacing c := by
  rw [dottedNames, if_pos hkind, List.mem_filterMap] at hd
  obtain ⟨m, hm, hdm⟩ := hd
  rw [importsOf_eq hkind]
  obtain hm | hm := List.mem_append.mp hm
  · obtain ⟨d', hd', hisd, hname⟩ := h.exists_dotted_of_name hn hnamed hkind hm
    obtain rfl : d' = d := Option.some.inj (hd'.symm.trans hdm)
    obtain ⟨c, hc, hspacing⟩ := hisd.exists_isSpacing h hspaced
    refine ⟨_, List.mem_map_of_mem (List.mem_append_left _ (List.mem_map_of_mem hm)), c, ?_,
      hspacing⟩
    rw [hname]
    exact mem_toList_qualify_right hc
  · split_ifs at hm with hfrom
    · rw [Option.mem_toList] at hm
      obtain ⟨hdotted, htext⟩ :=
        h.importedModule_eq hn hnamed hkind (List.mem_of_mem_head? hm)
      obtain ⟨c, hc, hspacing⟩ := (hdotted d hdm).exists_isSpacing h hspaced
      have hmodule : moduleText n = d.text := by
        rw [moduleText, if_neg (by rw [hfrom]; decide), if_pos hfrom, hm, Option.map_some,
          Option.getD_some, htext, hdm, Option.map_some, Option.getD_some]
      obtain ⟨member, hmember⟩ := h.exists_member hn hnamed hfrom
      refine ⟨_, List.mem_map_of_mem hmember, c, ?_, hspacing⟩
      rw [hmodule]
      exact mem_toList_qualify_left hc member
    · cases hm

end

/-! ## The imports of a module -/

/-- Whether all names of a module that is not named are imported. -/
def ImportsBareStar (n : Node) : Prop :=
  n.kind ∈ importKinds ∧ ImportsAll n ∧ modulePath n = []

instance (n : Node) : Decidable (ImportsBareStar n) :=
  inferInstanceAs (Decidable (n.kind ∈ importKinds ∧ ImportsAll n ∧ modulePath n = []))

theorem importsOf_of_not_mem {n : Node} (hkind : n.kind ∉ importKinds) : importsOf n = [] := by
  simp only [importKinds, List.mem_cons, List.not_mem_nil, or_false, not_or] at hkind
  simp [importsOf, hkind]

section

variable {root n : Node} (h : Grammatical root) (hn : n ∈ root.namedChildren)
include h hn

/-- Whether there are blanks, comments or continued lines in the imports of a statement. -/
theorem not_isSpacing_importsOf_iff :
    (∀ s ∈ importsOf n, ∀ c ∈ s.toList, ¬ IsSpacing c) ↔ ∀ d ∈ dottedNames n, d.Unspaced := by
  obtain ⟨hchild, hnamed⟩ := List.mem_filter.mp hn
  have hmem := Node.child_mem_preorder (Node.self_mem_preorder root) hchild
  by_cases hkind : n.kind ∈ importKinds
  · refine ⟨fun hfree d hd => ?_, fun hunspaced s hs c hc => ?_⟩
    · by_contra hspaced
      obtain ⟨s, hs, c, hc, hspacing⟩ :=
        exists_isSpacing_of_mem_dottedNames h hmem hnamed hkind hd hspaced
      exact hfree s hs c hc hspacing
    · rw [importsOf_eq_map_importPaths h hmem hnamed hkind hunspaced, List.mem_map] at hs
      obtain ⟨p, hp, rfl⟩ := hs
      refine not_isSpacing_of_mem_intercalate (fun x hx => ?_) hc
      obtain ⟨-, hident⟩ | ⟨-, rfl⟩ := of_mem_importPaths h hmem hnamed hkind hp
      · exact .inl (hident x hx)
      · obtain hx | hx := List.mem_append.mp hx
        · exact .inl (isIdentifier_of_mem_modulePath h hmem hnamed hkind x hx)
        · exact .inr (List.mem_singleton.mp hx)
  · rw [importsOf_of_not_mem hkind, dottedNames, if_neg hkind]
    exact iff_of_true nofun nofun

/-- Whether the imports of a statement are qualified names. -/
theorem isQualifiedName_importsOf_iff :
    (∀ s ∈ importsOf n, IsQualifiedName s) ↔
      (∀ d ∈ dottedNames n, d.Unspaced) ∧ ¬ ImportsBareStar n := by
  obtain ⟨hchild, hnamed⟩ := List.mem_filter.mp hn
  have hmem := Node.child_mem_preorder (Node.self_mem_preorder root) hchild
  by_cases hkind : n.kind ∈ importKinds
  · refine ⟨fun hqualified => ⟨?_, ?_⟩, fun ⟨hunspaced, hbare⟩ s hs => ?_⟩
    · exact (not_isSpacing_importsOf_iff h hn).mp fun s hs => (hqualified s hs).not_isSpacing
    · rintro ⟨-, hall, hmodule⟩
      refine not_isQualifiedName_star (hqualified "*" ?_)
      rw [importsOf_eq hkind, moduleText_eq_empty h hmem hnamed hkind hmodule, qualify_empty,
        List.map_id, if_pos hall]
      exact List.mem_append_right _ List.mem_cons_self
    · rw [importsOf_eq_map_importPaths h hmem hnamed hkind hunspaced, List.mem_map] at hs
      obtain ⟨p, hp, rfl⟩ := hs
      obtain ⟨hne, hident⟩ | ⟨hall, rfl⟩ := of_mem_importPaths h hmem hnamed hkind hp
      · exact ⟨p, hne, hident, .inl rfl⟩
      · exact ⟨modulePath n, fun hmodule => hbare ⟨hkind, hall, hmodule⟩,
          isIdentifier_of_mem_modulePath h hmem hnamed hkind, .inr rfl⟩
  · rw [importsOf_of_not_mem hkind, dottedNames, if_neg hkind]
    exact iff_of_true nofun ⟨nofun, fun hbare => hkind hbare.1⟩

/-- The imports of a statement with nothing in its dotted names do not depend on spacing. -/
theorem importsOf_eq_of_unspaced (hunspaced : ∀ d ∈ dottedNames n, d.Unspaced) :
    importsOf n = (importPaths n).map (".".intercalate ·) := by
  obtain ⟨hchild, hnamed⟩ := List.mem_filter.mp hn
  have hmem := Node.child_mem_preorder (Node.self_mem_preorder root) hchild
  by_cases hkind : n.kind ∈ importKinds
  · exact importsOf_eq_map_importPaths h hmem hnamed hkind hunspaced
  · rw [importsOf_of_not_mem hkind, importPaths, if_neg hkind, List.map_nil]

end

theorem forall_mem_imports {root : Node} {module path : String} {P : String → Prop} :
    (∀ s ∈ (moduleFacts module path root).imports, P s) ↔
      ∀ n ∈ root.namedChildren, ∀ s ∈ importsOf n, P s := by
  simp only [moduleFacts, mem_sortedNames, List.mem_flatMap]
  exact ⟨fun hall n hn s hs => hall s ⟨n, hn, hs⟩, fun hall s ⟨n, hn, hs⟩ => hall n hn s hs⟩

/-- The imports are taken from the text as it is written. There are no blanks, comments and
continued lines in them if there are none in the dotted names of the import statements; they
are qualified names if, further, no star is imported from a module that is not named. Then
they are the joined paths of what is imported, however the statements are spaced otherwise. -/
theorem imports_qualified_iff {root : Node} (h : Grammatical root) (module path : String) :
    ((∀ s ∈ (moduleFacts module path root).imports, ∀ c ∈ s.toList, ¬ IsSpacing c) ↔
        ∀ n ∈ root.namedChildren, ∀ d ∈ dottedNames n, d.Unspaced) ∧
      ((∀ s ∈ (moduleFacts module path root).imports, IsQualifiedName s) ↔
        ∀ n ∈ root.namedChildren, (∀ d ∈ dottedNames n, d.Unspaced) ∧ ¬ ImportsBareStar n) ∧
      ((∀ n ∈ root.namedChildren, ∀ d ∈ dottedNames n, d.Unspaced) →
        (moduleFacts module path root).imports =
          sortedNames ((root.namedChildren.flatMap importPaths).map (".".intercalate ·))) := by
  refine ⟨?_, ?_, fun hunspaced => ?_⟩
  · rw [forall_mem_imports]
    exact forall₂_congr fun n hn => not_isSpacing_importsOf_iff h hn
  · rw [forall_mem_imports]
    exact forall₂_congr fun n hn => isQualifiedName_importsOf_iff h hn
  · rw [List.map_flatMap]
    exact congrArg sortedNames
      (List.flatMap_congr fun n hn => importsOf_eq_of_unspaced h hn (hunspaced n hn))

/-- The tree of `import os.path` with a number of blanks before and after the dot. -/
def dottedImport (gap : Nat) : Node :=
  let blanks := String.ofList (List.replicate gap ' ')
  let name := "os" ++ blanks ++ "." ++ blanks ++ "path"
  let place (byte : Nat) : Position := ⟨byte, 0, byte⟩
  let node (kind : String) (named : Bool) (field : Option String) (start stop : Nat)
      (text : String) : List Node → Node :=
    .mk ⟨kind, named, false, false, field, place start, place stop, text⟩
  let dot := 9 + gap
  let last := dot + 1 + gap
  .mk ⟨"module", true, false, false, none, .zero, ⟨last + 5, 1, 0⟩, "import " ++ name ++ "\n"⟩
    [ node "import_statement" true none 0 (last + 4) ("import " ++ name)
        [ node "import" false none 0 6 "import" [],
          node "dotted_name" true (some "name") 7 (last + 4) name
            [ node "identifier" true none 7 9 "os" [],
              node "." false none dot (dot + 1) "." [],
              node "identifier" true none last (last + 4) "path" [] ] ] ]

/-- With blanks around its dot, a name is imported with the blanks. -/
theorem imports_dottedImport :
    Grammatical (dottedImport 0) ∧ Grammatical (dottedImport 1) ∧
      (moduleFacts "m" "m.py" (dottedImport 0)).imports = ["os.path"] ∧
      (∀ s ∈ (moduleFacts "m" "m.py" (dottedImport 0)).imports, IsQualifiedName s) ∧
      (moduleFacts "m" "m.py" (dottedImport 1)).imports = ["os . path"] ∧
      ¬ ∀ s ∈ (moduleFacts "m" "m.py" (dottedImport 1)).imports, IsQualifiedName s := by
  have htight : Grammatical (dottedImport 0) :=
    grammatical_of_conforms (by decide +kernel : (dottedImport 0).preorder.all (conforms 32))
  have hloose : Grammatical (dottedImport 1) :=
    grammatical_of_conforms (by decide +kernel : (dottedImport 1).preorder.all (conforms 32))
  refine ⟨htight, hloose, by decide +kernel, ?_, by decide +kernel, ?_⟩
  · exact (imports_qualified_iff htight "m" "m.py").2.1.mpr (by decide +kernel)
  · exact (imports_qualified_iff hloose "m" "m.py").2.1.not.mpr (by decide +kernel)

end CodeAtlas.Source
