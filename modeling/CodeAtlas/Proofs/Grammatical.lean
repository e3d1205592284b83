import CodeAtlas.Proofs.JoinedNames
import CodeAtlas.Proofs.RuleYields
import CodeAtlas.Source.Lexer

/-!
# Trees of Python text

A tree is `Grammatical` if the parts of its nodes are what the rules of their kinds yield, its
words and comments are spelled as such, and no node but the whole and the blocks starts with a
comment. `conforms` tells it of a given tree (`grammatical_of_conforms`).

What stands between the parts of a node can be seen in its text : a blank, or the character
that starts a comment or the continuation of a line, is in no identifier
(`not_isIdentifierContinue_of_isSpacing`).
-/

namespace CodeAtlas.Source

open CodeAtlas.Grammar CodeAtlas.Syntax CodeAtlas.Text

/-! ## Characters of names -/

/-- Whether a text is a word that may be an identifier. -/
def isIdentifier (s : String) : Bool :=
  match s.toList with
  | [] => false
  | c :: rest => isIdentifierStart c && rest.all isIdentifierContinue

/-- Whether a character starts a comment or the continuation of a line. -/
def startsExtra (c : Char) : Bool := c == '#' || c == '\\'

/-- Whether a character is a blank, or starts what may stand where a blank may. -/
def IsSpacing (c : Char) : Prop := isBlank c ∨ startsExtra c

theorem inRanges_eq_any (ranges : Array (Nat × Nat)) (n : Nat) :
    inRanges ranges n =
      ranges.toList.any fun (low, high) => decide (low ≤ n) && decide (n ≤ high) := by
  simp [inRanges]

/-- The blanks beyond ASCII are in no range of letters. -/
theorem not_inRanges_of_mem {n : Nat} (h : n ∈ [0x200b, 0x2060, 0xfeff]) :
    inRanges identifierStarts n = false ∧ inRanges identifierMarks n = false := by
  simp only [inRanges_eq_any]
  revert n
  decide +kernel

theorem not_isIdentifierContinue_of_mem {c : Char} (h : c ∈ ['\u200b', '\u2060', '\ufeff']) :
    ¬ isIdentifierContinue c := by
  have hascii : c.isAlpha = false ∧ c ≠ '_' ∧ c.isDigit = false := by
    simp only [List.mem_cons, List.not_mem_nil, or_false] at h
    obtain rfl | rfl | rfl := h <;> decide
  obtain ⟨hstarts, hmarks⟩ := not_inRanges_of_mem (List.mem_map_of_mem (f := Char.toNat) h)
  simp [isIdentifierContinue, isIdentifierStart, hstarts, hmarks, hascii]

theorem not_isIdentifierContinue_of_isSpacing {c : Char} (h : IsSpacing c) :
    ¬ isIdentifierContinue c := by
  have hcontrol : ∀ n : Fin 14, 9 ≤ n.val → ¬ isIdentifierContinue (Char.ofNat n.val) := by
    decide
  obtain hblank | hstarts := h
  · simp only [isBlank, Bool.or_eq_true, Bool.and_eq_true, decide_eq_true_eq, beq_iff_eq] at hblank
    obtain (((⟨hlow, hhigh⟩ | rfl) | hc) | hc) | hc := hblank
    · have hl : 9 ≤ c.toNat := hlow
      have hh : c.toNat ≤ 13 := hhigh
      have := hcontrol ⟨c.toNat, by omega⟩ hl
      rwa [Char.ofNat_toNat] at this
    · decide
    all_goals exact not_isIdentifierContinue_of_mem (by simp [hc])
  · simp only [startsExtra, Bool.or_eq_true, beq_iff_eq] at hstarts
    obtain rfl | rfl := hstarts <;> decide

theorem isIdentifierContinue_of_isIdentifier {s : String} (h : isIdentifier s) {c : Char}
    (hc : c ∈ s.toList) : isIdentifierContinue c := by
  unfold isIdentifier at h
  split at h
  · cases h
  · rename_i first rest heq
    rw [Bool.and_eq_true, List.all_eq_true] at h
    rw [heq] at hc
    rcases List.mem_cons.mp hc with rfl | hc
    · simp [isIdentifierContinue, h.1]
    · exact h.2 c hc

theorem ne_empty_of_isIdentifier {s : String} (h : isIdentifier s) : s ≠ "" := by
  rintro rfl
  exact absurd h (by decide)

/-! ## Grammatical trees -/

/-- The texts of nodes in a row with blanks between them, as many as their places leave. -/
inductive Spelled : List Node → String → Prop where
  | one (n : Node) : Spelled [n] n.text
  | cons {n m : Node} {ns : List Node} {gap s : String} (hblank : ∀ c ∈ gap.toList, isBlank c)
      (hplace : n.stop.byte + gap.utf8ByteSize = m.start.byte) (h : Spelled (m :: ns) s) :
      Spelled (n :: m :: ns) (n.text ++ gap ++ s)

/-- What is written anywhere, as a comment or to continue a line. -/
structure IsExtra (n : Node) : Prop where
  kind : n.kind ∈ grammar.extras
  named : n.info.named
  field : n.info.field = none
  text : n.text.toList.head?.any startsExtra

theorem IsExtra.exists_startsExtra {n : Node} (h : IsExtra n) :
    ∃ c ∈ n.text.toList, startsExtra c := by
  obtain ⟨c, hc, hstarts⟩ := (Option.any_eq_true _ _).mp h.text
  exact ⟨c, List.mem_of_mem_head? hc, hstarts⟩

/-- Whether a tree is one that the grammar gives to a text. -/
structure Grammatical (root : Node) : Prop where
  rules : ∀ n ∈ root.preorder, n.info.named → ∀ body ∈ grammar.ownBody? n.kind,
    grammar.Yields {} body n.parts
  words : ∀ n ∈ root.preorder, n.kind = "identifier" → isIdentifier n.text
  extras : ∀ n ∈ root.preorder, n.info.extra → IsExtra n
  /-- A comment stands before a node rather than at its start, the whole text and the blocks
  that start with an indent apart. -/
  starts : ∀ n ∈ root.preorder, ∀ m ∈ n.children, (grammar.ownBody? m.kind).isSome →
    ∀ c ∈ m.children.head?, ¬ c.info.extra
  spelled : ∀ n ∈ root.preorder, n.kind = "dotted_name" → Spelled n.children n.text

namespace Grammatical

variable {root n : Node} {kind : String} {p : Outline → Bool}

/-- What a field reaches is a part of the node. -/
theorem mem_parts_of_field (h : Grammatical root) (hn : n ∈ root.preorder) {c : Node}
    {field : String} (hc : c ∈ n.fieldChildren field) : c ∈ n.parts := by
  obtain ⟨hmem, hfield⟩ := List.mem_filter.mp hc
  refine List.mem_filter.mpr ⟨hmem, ?_⟩
  rw [Bool.not_eq_true', Bool.eq_false_iff]
  intro hextra
  rw [(h.extras c (Node.child_mem_preorder hn hmem) hextra).field] at hfield
  cases hfield

/-- A node whose kind is its rule's starts with a part. -/
theorem head?_parts (h : Grammatical root) (hn : n ∈ root.preorder) {m : Node}
    (hm : m ∈ n.children) (hown : (grammar.ownBody? m.kind).isSome) :
    m.parts.head? = m.children.head? := by
  have hfirst := h.starts n hn m hm hown
  rw [Node.parts]
  cases hc : m.children with
  | nil => rfl
  | cons c cs =>
    have : c.info.extra = false := by simpa using hfirst c (by rw [hc]; rfl)
    rw [List.filter_cons_of_pos (by rw [this]; rfl), List.head?_cons, List.head?_cons]

theorem every_part (h : Grammatical root) (hn : n ∈ root.preorder) (hnamed : n.info.named)
    (hkind : n.kind = kind) (hp : grammar.everyPart kind p) : ∀ c ∈ n.parts, p c.outline := by
  obtain ⟨body, hbody, hread⟩ := (Option.any_eq_true _ _).mp hp
  exact (Definition.everyNode_sound p).fits (h.rules n hn hnamed body (hkind ▸ hbody)) 32 hread

theorem some_part (h : Grammatical root) (hn : n ∈ root.preorder) (hnamed : n.info.named)
    (hkind : n.kind = kind) (hp : grammar.somePart kind p) : ∃ c ∈ n.parts, p c.outline := by
  obtain ⟨body, hbody, hread⟩ := (Option.any_eq_true _ _).mp hp
  exact (Definition.someNode_sound p).fits (h.rules n hn hnamed body (hkind ▸ hbody)) 32 hread

/-- A field that some part of each node of a kind has reaches a child. -/
theorem exists_field (h : Grammatical root) (hn : n ∈ root.preorder) (hnamed : n.info.named)
    (hkind : n.kind = kind) {field : String}
    (hp : grammar.somePart kind fun o => o.field == some field) :
    ∃ c, n.field? field = some c := by
  obtain ⟨c, hc, hfield⟩ := h.some_part hn hnamed hkind hp
  have hmem : c ∈ n.fieldChildren field := List.mem_filter.mpr ⟨(List.mem_filter.mp hc).1, hfield⟩
  exact Option.isSome_iff_exists.mp (List.isSome_head?.mpr (List.ne_nil_of_mem hmem))

end Grammatical

/-! ## Telling that a tree is grammatical -/

instance (n : Node) : Decidable (IsExtra n) :=
  decidable_of_iff (n.kind ∈ grammar.extras ∧ n.info.named ∧ n.info.field = none ∧
    n.text.toList.head?.any startsExtra)
    ⟨fun h => ⟨h.1, h.2.1, h.2.2.1, h.2.2.2⟩, fun h => ⟨h.kind, h.named, h.field, h.text⟩⟩

/-- Whether the blanks up to the next other character are all that stands between nodes. -/
def spells : List Node → List Char → Bool
  | [], _ => false
  | [n], cs => n.text.toList == cs
  | n :: m :: ns, cs =>
    let rest := cs.drop n.text.toList.length
    let gap := String.ofList (rest.takeWhile isBlank)
    n.text.toList == cs.take n.text.toList.length &&
      n.stop.byte + gap.utf8ByteSize == m.start.byte && spells (m :: ns) (rest.dropWhile isBlank)

theorem spelled_of_spells : ∀ {ns : List Node} {cs : List Char}, spells ns cs →
    Spelled ns (String.ofList cs)
  | [n], cs, h => by
    rw [spells, beq_iff_eq] at h
    rw [← h, String.ofList_toList]
    exact .one n
  | n :: m :: ns, cs, h => by
    rw [spells, Bool.and_eq_true, Bool.and_eq_true, beq_iff_eq, beq_iff_eq] at h
    obtain ⟨⟨htext, hplace⟩, hrest⟩ := h
    have hsplit : String.ofList cs = n.text
        ++ String.ofList ((cs.drop n.text.toList.length).takeWhile isBlank)
        ++ String.ofList ((cs.drop n.text.toList.length).dropWhile isBlank) := by
      rw [← String.toList_inj]
      simp only [String.toList_append, String.toList_ofList, List.append_assoc,
        List.takeWhile_append_dropWhile]
      calc cs = cs.take n.text.toList.length ++ cs.drop n.text.toList.length :=
            (List.take_append_drop _ _).symm
        _ = n.text.toList ++ cs.drop n.text.toList.length := by rw [← htext]
    rw [hsplit]
    refine .cons (fun c hc => ?_) hplace (spelled_of_spells hrest)
    rw [String.toList_ofList] at hc
    exact List.all_eq_true.mp List.all_takeWhile c hc

/-- Whether a node is found to be as the grammar asks, hidden rules opened up to a depth. -/
def conforms (depth : Nat) (n : Node) : Bool :=
  (!n.info.named || (grammar.ownBody? n.kind).all fun body =>
      (grammar.rests depth {} body n.parts).any (·.isEmpty)) &&
    (n.kind != "identifier" || isIdentifier n.text) &&
    (!n.info.extra || decide (IsExtra n)) &&
    (n.children.all fun m => (grammar.ownBody? m.kind).isNone ||
      m.children.head?.all fun c => !c.info.extra) &&
    (n.kind != "dotted_name" || spells n.children n.text.toList)

theorem grammatical_of_conforms {depth : Nat} {root : Node}
    (h : root.preorder.all (conforms depth)) : Grammatical root := by
  rw [List.all_eq_true] at h
  simp only [conforms, Bool.and_eq_true, Bool.or_eq_true, Bool.not_eq_true', bne_iff_ne, ne_eq,
    decide_eq_true_eq, List.all_eq_true, Option.all_eq_true, List.any_eq_true,
    List.isEmpty_iff] at h
  refine ⟨fun n hn hnamed body hbody => ?_, fun n hn hkind => ?_, fun n hn hextra => ?_,
    fun n hn m hm hown c hc => ?_, fun n hn hkind => ?_⟩
  all_goals obtain ⟨⟨⟨⟨hrules, hwords⟩, hextras⟩, hstarts⟩, hspelled⟩ := h n hn
  · obtain ⟨rest, hrest, rfl⟩ := (hrules.resolve_left (by simp [hnamed])) body hbody
    exact Definition.yields_of_nil_mem_rests hrest
  · exact hwords.resolve_left (not_not.mpr hkind)
  · exact hextras.resolve_left (by simp [hextra])
  · have := (hstarts m hm).resolve_left (by simpa [Option.isSome_iff_ne_none] using hown)
    exact Bool.not_eq_true _ ▸ this c hc
  · have := spelled_of_spells (hspelled.resolve_left (not_not.mpr hkind))
    rwa [String.ofList_toList] at this

end CodeAtlas.Source
