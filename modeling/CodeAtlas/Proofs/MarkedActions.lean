import CodeAtlas.Proofs.MarkedReductions
import Mathlib.Data.List.Monad

/-!
# Tokens and actions behind a byte order mark

The next token of a version is the same token with a mark, moved on (`nextToken_withMark`), if the
version has met no error and, at the beginning of the text, finds a token that is not empty. It is
pushed and accepted alike (`goes_shift`, `goes_accept`) if it lies on the version.
-/

namespace CodeAtlas.Syntax

open CodeAtlas.Grammar CodeAtlas.Text

variable {σ : Type}

/-! ## Tokens -/

/-- A token behind the mark, before it is known how much stands before it. -/
def Leaf.shifted (leaf : Leaf σ) : Leaf σ :=
  { leaf with start := leaf.start.pastMark, stop := leaf.stop.pastMark }

namespace Machine

/-- Actions depend on the symbol of a token. -/
theorem actionsFor_withMark (m : Machine σ) (n : Nat) (t : Subtree σ) :
    actionsFor m.withMark n t.pastMark = actionsFor m n t := by
  rw [actionsFor, tokenSymbol?, Subtree.label_pastMark]
  rfl

/-- The scanner's token at a place where an empty token is empty with the mark as well, and which
a version has come to without an error unless it recovers. -/
theorem scanToken_withMark [BEq σ] {tk : Tokenizer σ} (htk : tk.SkipsMark) (m : Machine σ) (v n : Nat)
    (recovering : Bool) (valid : TokenSet) {place : Cursor} (hplace : place.Unmarked)
    (hclean : recovering = true ∨ (m.stack.top v).errorCost = 0)
    (hempty : 0 < place.position.byte ∨
      ∀ found ∈ tk.scan valid ((m.stack.head v).scanner.getD tk.initial) place,
        0 < found.1.stop.position.byte) :
    scanToken tk m.withMark v n recovering valid place.withMark =
      (scanToken tk m v n recovering valid place).map Leaf.shifted := by
  have hhead : (m.withMark.stack.head v).scanner = (m.stack.head v).scanner := by
    rw [withMark, Stack.head_withMark]
    rfl
  have hadvanced : (recovering || !m.withMark.stack.hasAdvanced v) =
      (recovering || !m.stack.hasAdvanced v) := by
    rcases hclean with rfl | hclean
    · rfl
    · have hcost : (m.withMark.stack.top v).errorCost = 0 := by
        rw [withMark, Stack.top_withMark]
        exact hclean
      rw [Stack.hasAdvanced, Stack.hasAdvanced, hclean, hcost]
      rfl
  rw [scanToken, scanToken, hhead, htk.scan _ _ _ hplace]
  cases hscan : tk.scan valid ((m.stack.head v).scanner.getD tk.initial) place with
  | none => rfl
  | some result =>
    obtain ⟨found, after⟩ := result
    have hstop : (found.pastMark.stop.position.byte ≤ place.withMark.position.byte) =
        (found.stop.position.byte ≤ place.position.byte) := by
      have hfound : found.pastMark.stop.position.byte = found.stop.position.byte + 3 := rfl
      rw [Cursor.byte_withMark, hfound, markedByte]
      rcases hempty with hpos | hempty
      · rw [if_neg (Nat.ne_of_gt hpos), Nat.add_le_add_iff_right]
      · have hpos : 0 < found.stop.position.byte := hempty _ (Option.mem_def.mpr hscan)
        split_ifs
        · exact propext ⟨fun h => by omega, fun h => by omega⟩
        · rw [Nat.add_le_add_iff_right]
    simp only [Option.map_some, Prod.map, id, hstop, hadvanced]
    have hsymbol : found.pastMark.symbol = found.symbol := rfl
    have hautomaton : m.withMark.automaton = m.automaton := rfl
    rw [hsymbol, hautomaton]
    split_ifs
    · rfl
    · rfl

/-- The lexer's token. -/
theorem lexToken_withMark {tk : Tokenizer σ} (htk : tk.SkipsMark) (l : Language) (m : Machine σ)
    (n : Nat) (valid : TokenSet) {place : Cursor} (hplace : place.Unmarked) :
    lexToken l tk m.withMark n valid place.withMark =
      (lexToken l tk m n valid place).map Leaf.shifted := by
  rw [lexToken, lexToken, htk.lex _ _ hplace]
  cases tk.lex valid place with
  | none => rfl
  | some found =>
    simp only [Option.map_some, htk.keyword? found]
    rfl

/-- The token that is found beyond the beginning of the text when no usable one is. -/
theorem recoverToken_withMark [BEq σ] {tk : Tokenizer σ} (htk : tk.SkipsMark) (l : Language)
    (m : Machine σ) (v n : Nat) (valid : TokenSet) :
    ∀ (fuel : Nat) (skipped : Option (Cursor × Cursor)) (place : Cursor), 0 < place.position.byte →
      recoverToken l tk m.withMark v n valid fuel
          (skipped.map (Prod.map Cursor.pastMark Cursor.pastMark)) place.pastMark =
        (recoverToken l tk m v n valid fuel skipped place).shifted
  | 0, _, _, _ => rfl
  | fuel + 1, skipped, place, hpos => by
    have hplace : place.Unmarked := fun h => absurd h (Nat.ne_of_gt hpos)
    have hscan := scanToken_withMark htk m v n true valid hplace (.inl rfl) (.inl hpos)
    have hlex := lexToken_withMark htk l m n valid hplace
    rw [Cursor.withMark_of_pos hpos] at hscan hlex
    have hhere := htk.skipBlanks_pos place hpos
    have hfound := map_orElse (scanToken tk m v n true valid place) (lexToken l tk m n valid place)
      Leaf.shifted
    simp only [Option.map_eq_map] at hfound
    rw [recoverToken, recoverToken, hscan, hlex, htk.skipBlanks place hpos, ← hfound]
    cases scanToken tk m v n true valid place <|> lexToken l tk m n valid place with
    | some leaf => cases skipped <;> rfl
    | none =>
      simp only [Option.map_none]
      generalize tk.skipBlanks place = here at hhere
      have hskipped : (skipped.map (Prod.map Cursor.pastMark Cursor.pastMark)).getD
          (here.pastMark, here.pastMark) =
          Prod.map Cursor.pastMark Cursor.pastMark (skipped.getD (here, here)) := by
        cases skipped <;> rfl
      rw [hskipped]
      obtain ⟨first, last⟩ := skipped.getD (here, here)
      have hbyte : (here.pastMark.position.byte != last.pastMark.position.byte) =
          (here.position.byte != last.position.byte) := by
        simp [bne]
      have hnext : 0 < here.advance.position.byte :=
        Nat.lt_of_lt_of_le hhere (Cursor.byte_le_advance here)
      simp only [Prod.map, hbyte, Cursor.atEnd_pastMark, Cursor.advance_pastMark]
      split_ifs
      · exact recoverToken_withMark htk l m v n valid fuel (some (first, here)) here hhere
      · rfl
      · exact recoverToken_withMark htk l m v n valid fuel (some (first, here.advance)) here.advance
          hnext

section

variable [BEq σ] (l : Language) (tk : Tokenizer σ)

/-- The next token of a version that its state can use. -/
def usable? (m : Machine σ) (v n : Nat) : Option (Leaf σ) :=
  let place := (m.stack.top v).cursor
  let state := m.automaton.state n
  scanToken tk m v n false state.valid place <|> lexToken l tk m n state.lexical place

/-- Whether a version at the beginning of the text finds a token that it can use, and the scanner
none that is empty. -/
def begins (m : Machine σ) (v n : Nat) : Bool :=
  ((tk.scan (m.automaton.state n).valid ((m.stack.head v).scanner.getD tk.initial)
      (m.stack.top v).cursor).all fun found => decide (0 < found.1.stop.position.byte)) &&
    (usable? l tk m v n).isSome

/-- The next token of a version, before it is known how much stands before it. -/
def nextLeaf (m : Machine σ) (v n : Nat) : Leaf σ :=
  (usable? l tk m v n).getD
    (recoverToken l tk m v n (m.automaton.state 0).valid
      (2 * (m.stack.top v).cursor.rest.length + 2) none (m.stack.top v).cursor)

theorem nextToken_eq (m : Machine σ) (v : Nat) {n : Nat} (hn : n ≠ 0) :
    nextToken l tk m v n = .leaf { nextLeaf l tk m v n with
      padding := (nextLeaf l tk m v n).start.position.byte - m.stack.position v } := by
  have hstate : (n == 0) = false := beq_false_of_ne hn
  rw [nextToken, hstate, nextLeaf, usable?]
  simp only [Bool.false_eq_true, if_false]
  generalize (scanToken tk m v n false (m.automaton.state n).valid (m.stack.top v).cursor <|>
    lexToken l tk m n (m.automaton.state n).lexical (m.stack.top v).cursor) = found
  cases found <;> rfl

variable {l tk}

/-- A version that has met no error finds the same token that it can use. -/
theorem usable?_withMark (htk : tk.SkipsMark) {m : Machine σ} (hm : m.stack.Steady) {v n : Nat}
    (hclean : (m.stack.top v).errorCost = 0)
    (hbegin : 0 < m.stack.position v ∨ begins l tk m v n = true) :
    usable? l tk m.withMark v n = (usable? l tk m v n).map Leaf.shifted := by
  have hplace : (m.stack.top v).cursor.Unmarked := hm.unmarked _ (hm.heads v)
  have htop : (m.withMark.stack.top v).cursor = (m.stack.top v).cursor.withMark := by
    rw [withMark, Stack.top_withMark]
    rfl
  have hempty : 0 < (m.stack.top v).cursor.position.byte ∨
      ∀ found ∈ tk.scan (m.automaton.state n).valid ((m.stack.head v).scanner.getD tk.initial)
        (m.stack.top v).cursor, 0 < found.1.stop.position.byte := by
    refine hbegin.imp id fun hbegins found hfound => ?_
    have hall := (Bool.and_eq_true_iff.mp hbegins).1
    rw [Option.mem_def.mp hfound] at hall
    exact of_decide_eq_true hall
  have hscan := scanToken_withMark htk m v n false (m.automaton.state n).valid hplace (.inr hclean)
    hempty
  have hlex := lexToken_withMark htk l m n (m.automaton.state n).lexical hplace
  rw [usable?, usable?, htop, ← Option.map_eq_map, map_orElse, Option.map_eq_map, ← hlex, ← hscan]
  rfl

theorem nextLeaf_withMark (htk : tk.SkipsMark) {m : Machine σ} (hm : m.stack.Steady) {v n : Nat}
    (hclean : (m.stack.top v).errorCost = 0)
    (hbegin : 0 < m.stack.position v ∨ begins l tk m v n = true) :
    nextLeaf l tk m.withMark v n = (nextLeaf l tk m v n).shifted := by
  rw [nextLeaf, usable?_withMark htk hm hclean hbegin, nextLeaf]
  cases husable : usable? l tk m v n with
  | some leaf => rfl
  | none =>
    -- a version at the beginning finds a usable token
    have hpos : 0 < m.stack.position v := by
      refine hbegin.resolve_right fun hbegins => ?_
      have := (Bool.and_eq_true_iff.mp hbegins).2
      rw [husable] at this
      exact Bool.noConfusion this
    have htop : (m.withMark.stack.top v).cursor = (m.stack.top v).cursor.pastMark := by
      rw [withMark, Stack.top_withMark]
      exact Cursor.withMark_of_pos hpos
    rw [htop]
    exact recoverToken_withMark htk l m v n _ _ none _ hpos

/-- The next token of a version behind the mark. -/
theorem nextToken_withMark (htk : tk.SkipsMark) {m : Machine σ} (hm : m.stack.Steady) {v n : Nat}
    (hn : n ≠ 0) (hclean : (m.stack.top v).errorCost = 0)
    (hbegin : 0 < m.stack.position v ∨ begins l tk m v n = true)
    (hstart : m.stack.position v ≤ (nextToken l tk m v n).start.position.byte) :
    nextToken l tk m.withMark v n = (nextToken l tk m v n).pastMark := by
  rw [nextToken_eq l tk m v hn] at hstart ⊢
  rw [nextToken_eq l tk m.withMark v hn, nextLeaf_withMark htk hm hclean hbegin]
  have hposition : m.withMark.stack.position v = markedByte (m.stack.position v) :=
    m.stack.position_withMark v
  rw [hposition]
  generalize nextLeaf l tk m v n = leaf at hstart
  have hle : m.stack.position v ≤ leaf.start.position.byte := hstart
  have hpadding : leaf.start.position.byte + 3 - markedByte (m.stack.position v) =
      if leaf.start.position.byte ≤ leaf.start.position.byte - m.stack.position v
      then leaf.start.position.byte - m.stack.position v + 3
      else leaf.start.position.byte - m.stack.position v := by
    unfold markedByte
    split_ifs <;> omega
  exact congrArg (fun padding => Subtree.leaf { leaf.shifted with padding }) hpadding

end

/-! ## Actions -/

section

variable (l : Language)

theorem asWord?_pastMark (token : Subtree σ) (wordFits : Bool) :
    asWord? l token.pastMark wordFits = (asWord? l token wordFits).map Subtree.pastMark := by
  cases token with
  | leaf token =>
    rw [Subtree.pastMark, asWord?, asWord?]
    have hkeyword : token.pastMark.keyword = token.keyword := rfl
    have hlabel : token.pastMark.label = token.label := rfl
    rw [hkeyword, hlabel]
    by_cases h : (wordFits && token.keyword && token.label != .symbol l.word) = true
    · rw [if_pos h, if_pos h]
      rfl
    · rw [if_neg h, if_neg h]
      rfl
  | node s cs => rfl

theorem goes_halt (v : Nat) {m : Machine σ} (hm : m.stack.Steady) :
    Goes id (modifyStack fun s => s.halt v) (modifyStack fun s => s.halt v) m :=
  .modifyStack (hm.modifyHead v fun _ => rfl) (m.stack.halt_withMark v)

theorem goes_pause (v : Nat) (token : Subtree σ) {m : Machine σ} (hm : m.stack.Steady) :
    Goes id (modifyStack fun s => s.pause v token)
      (modifyStack fun s => s.pause v token.pastMark) m :=
  .modifyStack (hm.modifyHead v fun _ => rfl) (m.stack.pause_withMark v token)

/-- A token that lies on the version is pushed alike. -/
theorem goes_shift (v n : Nat) {token : Subtree σ} (extra : Bool) {m : Machine σ}
    (hm : m.stack.Steady) (ht : token.LiesOn (m.stack.position v)) :
    Goes id (shift l v n token extra) (shift l v n token.pastMark extra) m := by
  have ht' := ht.withExtra extra
  have hpush := m.stack.push_withMark l v ht'.stop n
  have hsteady := hm.push l v ht' n
  unfold shift
  rw [Subtree.scanned?_pastMark, Subtree.withExtra_pastMark]
  cases token.scanned? with
  | none => exact .modifyStack hsteady hpush
  | some scanned =>
    refine .modifyStack (hsteady.modifyHead v fun _ => rfl) ?_
    dsimp only
    rw [hpush]
    exact Stack.modifyHead_withMark _ v fun _ => rfl

/-- A complete reading is made of the same subtrees. -/
theorem rootOver_pastMark (subtrees : List (Subtree σ)) :
    rootOver l (subtrees.map Subtree.pastMark) = (rootOver l subtrees).map Subtree.pastMark := by
  have hextra : Subtree.extra ∘ Subtree.pastMark = (Subtree.extra : Subtree σ → Bool) :=
    funext Subtree.extra_pastMark
  unfold rootOver
  dsimp only
  rw [← List.map_reverse, List.takeWhile_map, List.dropWhile_map, hextra]
  cases subtrees.reverse.dropWhile Subtree.extra with
  | nil => rfl
  | cons tree below =>
    simp only [List.map_cons, Option.map_some, Subtree.label_pastMark, Subtree.start_pastMark,
      Subtree.children_pastMark, ← List.map_reverse, ← List.map_append]
    rw [Subtree.make_pastMark l _ _ fun _ => rfl]
    cases tree <;> rfl

/-- Take a complete reading if it is better than the best so far. -/
def offer (root? : Option (Subtree σ)) : StateM (Machine σ) (ForInStep PUnit) :=
  match root? with
  | none => pure (.yield ⟨⟩)
  | some root => do
    modify fun m =>
      let finished := match m.finished with
        | none => root
        | some best => if best.prefersSecond root then root else best
      { m with finished := some finished, accepted := m.accepted + 1 }
    pure (.yield ⟨⟩)

theorem offer_withMark (root? : Option (Subtree σ)) (m : Machine σ) :
    ∃ m' : Machine σ, (offer root?).run m = (.yield ⟨⟩, m') ∧ m'.stack = m.stack ∧
      (offer (root?.map Subtree.pastMark)).run m.withMark = (.yield ⟨⟩, m'.withMark) := by
  cases root? with
  | none => exact ⟨m, rfl, rfl, rfl⟩
  | some root =>
    refine ⟨_, rfl, rfl, ?_⟩
    obtain ⟨stack, automaton, finished, accepted⟩ := m
    cases finished with
    | none => rfl
    | some best =>
      have hbest : (if best.pastMark.prefersSecond root.pastMark then root.pastMark
          else best.pastMark) = (if best.prefersSecond root then root else best).pastMark := by
        rw [Subtree.prefersSecond_pastMark]
        split_ifs <;> rfl
      exact congrArg (fun t => (ForInStep.yield PUnit.unit,
        Machine.mk stack.withMark automaton (some t) (accepted + 1))) hbest

theorem goes_forIn_offer : ∀ (slices : List (Slice σ)) (m : Machine σ), m.stack.Steady →
    Goes id (forIn slices PUnit.unit fun slice _ => offer (rootOver l slice.subtrees))
      (forIn (slices.map Slice.pastMark) PUnit.unit fun slice _ =>
        offer (rootOver l slice.subtrees)) m
  | [], _, hm => .pure hm ()
  | slice :: slices, m, hm => by
    obtain ⟨m', hrun, hstack, hmarked⟩ := offer_withMark (rootOver l slice.subtrees) m
    rw [← rootOver_pastMark] at hmarked
    rw [List.map_cons, List.forIn_cons, List.forIn_cons]
    refine .bind (g := id) ⟨?_, ?_⟩ ?_
    · rw [hrun, hstack]
      exact hm
    · rw [hrun]
      exact hmarked
    · rw [hrun]
      exact goes_forIn_offer slices m' (hstack ▸ hm)

theorem accept_eq (v : Nat) (token : Subtree σ) : accept l v token =
    modifyStack (fun s => s.push l v (some token) 1) >>= fun _ =>
      get >>= fun m => modifyStack (fun _ => (m.stack.popAll v).2) >>= fun _ =>
        forIn (m.stack.popAll v).1 PUnit.unit
          (fun slice _ => offer (rootOver l slice.subtrees)) >>= fun _ =>
            modifyStack fun s =>
              (match (m.stack.popAll v).1[0]? with
                | some slice => s.remove slice.version
                | none => s).halt v :=
  rfl

/-- A text that is read to its end gives the same complete reading, moved on. -/
theorem goes_accept (v : Nat) {token : Subtree σ} {m : Machine σ} (hm : m.stack.Steady)
    (ht : token.LiesOn (m.stack.position v)) :
    Goes id (accept l v token) (accept l v token.pastMark) m := by
  have hsteady := hm.push l v ht 1
  rw [accept_eq, accept_eq]
  refine .modifyStack_bind (m.stack.push_withMark l v ht.stop 1) (.get_bind ?_)
  generalize m.stack.push l v (some token) 1 = s at hsteady
  have hpop : (withMark { m with stack := s }).stack.popAll v =
      Prod.map (Array.map Slice.pastMark) Stack.withMark (s.popAll v) := s.popAll_withMark v
  have hpopped := hsteady.popAll v
  rw [hpop]
  dsimp only
  generalize s.popAll v = popped at hpopped
  obtain ⟨slices, s'⟩ := popped
  simp only [Prod.map_fst, Prod.map_snd, Array.getElem?_map]
  refine .modifyStack_bind rfl ?_
  have hoffers := goes_forIn_offer l slices.toList { m with stack := s' } hpopped
  rw [← Array.toList_map, Array.forIn_toList, Array.forIn_toList] at hoffers
  refine .bind hoffers ?_
  cases slices[0]? with
  | none => exact .modifyStack (hoffers.steady.modifyHead v fun _ => rfl) (Stack.halt_withMark _ v)
  | some slice =>
    refine .modifyStack ((hoffers.steady.remove slice.version).modifyHead v fun _ => rfl) ?_
    exact (congrArg (Stack.halt · v) (Stack.remove_withMark _ slice.version)).trans
      (Stack.halt_withMark _ v)

end

end Machine

end CodeAtlas.Syntax
