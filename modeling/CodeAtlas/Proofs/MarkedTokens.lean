import CodeAtlas.Source.Parse
import Mathlib.Tactic.SplitIfs

/-!
# Tokens behind a byte order mark

A byte order mark takes up three bytes, and three columns of the first row. What stands behind
it stands where it would stand without the mark, moved on by these (`Cursor.pastMark`). The
scanner and the lexer step over the mark at the beginning of a text and read no byte or column
in any other place but to compare two of them. So in every place they find the token that they
would find without the mark, moved on with its place (`skipsMark_tokenizer`).
-/

namespace CodeAtlas.Text

/-- The character that may stand at the beginning of a text to tell its encoding. -/
def byteOrderMark : Char := '\ufeff'

/-! ## Places -/

/-- The position behind a byte order mark of what stood there without it. -/
def Position.pastMark (p : Position) : Position :=
  ⟨p.byte + 3, p.row, if p.row = 0 then p.column + 3 else p.column⟩

@[simp] theorem Position.byte_pastMark (p : Position) : p.pastMark.byte = p.byte + 3 := rfl

@[simp] theorem Position.row_pastMark (p : Position) : p.pastMark.row = p.row := rfl

/-- A character moves a position on as it does without the mark. Its row decides whether columns are
counted from the mark. -/
theorem Position.after_pastMark (p : Position) (ch : Char) :
    p.pastMark.after ch = (p.after ch).pastMark := by
  unfold after pastMark
  split_ifs <;> simp_all <;> omega

/-- How far a text with a mark is read, in bytes, if it is read as far as `byte` without it. -/
def markedByte (byte : Nat) : Nat := if byte = 0 then 0 else byte + 3

/-- The mark leaves places in their order, the beginning included. -/
theorem markedByte_lt_iff {a b : Nat} : markedByte a < markedByte b ↔ a < b := by
  unfold markedByte
  split_ifs <;> omega

theorem markedByte_inj {a b : Nat} : markedByte a = markedByte b ↔ a = b := by
  have hab := markedByte_lt_iff (a := a) (b := b)
  have hba := markedByte_lt_iff (a := b) (b := a)
  exact ⟨fun h => by omega, congrArg markedByte⟩

theorem markedByte_beq (a b : Nat) : (markedByte a == markedByte b) = (a == b) := by
  rw [Bool.eq_iff_iff, beq_iff_eq, beq_iff_eq, markedByte_inj]

namespace Cursor

/-- The place behind a byte order mark where the same text is left. -/
def pastMark (c : Cursor) : Cursor := ⟨c.position.pastMark, c.rest⟩

variable (c : Cursor)

@[simp] theorem rest_pastMark : c.pastMark.rest = c.rest := rfl

@[simp] theorem position_pastMark : c.pastMark.position = c.position.pastMark := rfl

@[simp] theorem peek?_pastMark : c.pastMark.peek? = c.peek? := rfl

@[simp] theorem atEnd_pastMark : c.pastMark.atEnd = c.atEnd := rfl

@[simp] theorem looksAt_pastMark (ch : Char) : c.pastMark.looksAt ch = c.looksAt ch := rfl

@[simp] theorem advance_pastMark : c.pastMark.advance = c.advance.pastMark := by
  rcases c with ⟨p, _ | ⟨ch, rest⟩⟩
  · rfl
  · simp [advance, pastMark, Position.after_pastMark]

@[simp] theorem skip_pastMark (ch : Char) : c.pastMark.skip ch = (c.skip ch).pastMark := by
  simp only [skip, looksAt_pastMark, advance_pastMark]
  split_ifs <;> rfl

@[simp] theorem drop_pastMark (n : Nat) : c.pastMark.drop n = (c.drop n).pastMark := by
  induction n generalizing c with
  | zero => rfl
  | succ n ih => rw [drop, drop, advance_pastMark, ih]

theorem dropWhile_go_pastMark (p : Char → Bool) (q : Position) (rest : List Char) :
    dropWhile.go p q.pastMark rest = (dropWhile.go p q rest).pastMark := by
  induction rest generalizing q with
  | nil => rfl
  | cons ch rest ih =>
    rw [dropWhile.go, dropWhile.go, Position.after_pastMark, ih]
    split_ifs <;> rfl

@[simp] theorem dropWhile_pastMark (p : Char → Bool) :
    c.pastMark.dropWhile p = (c.dropWhile p).pastMark :=
  dropWhile_go_pastMark p c.position c.rest

theorem byte_le_advance : c.position.byte ≤ c.advance.position.byte := by
  rcases c with ⟨p, _ | ⟨ch, rest⟩⟩
  · exact Nat.le_refl _
  · simp only [advance, Position.after]
    split_ifs <;> exact Nat.le_add_right _ _

/-- Reading on never goes back. -/
theorem byte_le_dropWhile_go (p : Char → Bool) (q : Position) (rest : List Char) :
    q.byte ≤ (dropWhile.go p q rest).position.byte := by
  induction rest generalizing q with
  | nil => exact Nat.le_refl _
  | cons ch rest ih =>
    rw [dropWhile.go]
    split_ifs
    · exact Nat.le_trans (byte_le_advance ⟨q, ch :: rest⟩) (ih (q.after ch))
    · exact Nat.le_refl _

/-! ## The beginning of a text -/

/-- Step over a byte order mark at the beginning of a text. -/
def skipMark : Cursor := if c.position.byte == 0 then c.skip '\ufeff' else c

/-- Where a text is read on in front of which a mark is put : behind it, but at the beginning
of the text before it. -/
def withMark : Cursor :=
  if 0 < c.position.byte then c.pastMark
  else if c.rest.isEmpty then c
  else ⟨c.position, byteOrderMark :: c.rest⟩

/-- At the beginning there is some text and no mark. -/
def Unmarked : Prop :=
  c.position.byte = 0 → c.position.row = 0 ∧ c.rest ≠ [] ∧ c.looksAt byteOrderMark = false

variable {c}

theorem withMark_of_pos (h : 0 < c.position.byte) : c.withMark = c.pastMark := if_pos h

theorem withMark_of_eq_zero (h : c.position.byte = 0) (hrest : c.rest ≠ []) :
    c.withMark = ⟨c.position, byteOrderMark :: c.rest⟩ := by
  rw [withMark, if_neg (by omega), if_neg (by simpa using hrest)]

/-- Only at the beginning of the text the mark is not yet counted. -/
theorem byte_withMark : c.withMark.position.byte = markedByte c.position.byte := by
  rcases Nat.eq_zero_or_pos c.position.byte with h | h
  · unfold withMark markedByte
    rw [if_neg (by omega), if_pos h]
    split_ifs <;> exact h
  · rw [withMark_of_pos h, markedByte, if_neg (by omega)]
    rfl

theorem length_rest_le_withMark (c : Cursor) : c.rest.length ≤ c.withMark.rest.length := by
  unfold withMark
  split_ifs
  · exact Nat.le_refl _
  · exact Nat.le_refl _
  · exact Nat.le_succ _

/-- Behind the mark there stands what stood there without it. -/
theorem Unmarked.skipMark_withMark (h : c.Unmarked) : c.withMark.skipMark = c.skipMark.pastMark := by
  rcases Nat.eq_zero_or_pos c.position.byte with hzero | hpos
  · obtain ⟨hrow, hrest, hmark⟩ := h hzero
    have hskip : c.skip '\ufeff' = c := if_neg (by simpa [byteOrderMark] using hmark)
    have hlooks : (⟨c.position, byteOrderMark :: c.rest⟩ : Cursor).looksAt '\ufeff' = true := rfl
    have hafter : c.position.after byteOrderMark = c.position.pastMark := by
      simp [Position.after, Position.pastMark, byteOrderMark, hrow]
      decide
    rw [withMark_of_eq_zero hzero hrest, skipMark, skipMark, hskip, ite_self,
      if_pos (by simpa using hzero), skip, if_pos hlooks, advance]
    exact congrArg (Cursor.mk · c.rest) hafter
  · rw [withMark_of_pos hpos, skipMark, skipMark, if_neg (by simp), if_neg (by simp; omega)]

end Cursor

end CodeAtlas.Text

namespace CodeAtlas.Source

open CodeAtlas.Text

/-! ## The scanner -/

/-- A token of the scanner behind the mark. What is open after it does not change. -/
def Scanned.pastMark (s : Scanned) : Scanned :=
  { s with start := s.start.pastMark, stop := s.stop.pastMark }

/-- The end of a string behind the mark, if there is one. -/
def StringScan.pastMark : StringScan → StringScan
  | .found s => .found s.pastMark
  | .nothing => .nothing
  | .ended c => .ended c.pastMark

namespace Layout

/-- Blanks behind the mark. How far the line is indented is counted in blanks, not in columns. -/
def Blanks.pastMark (b : Blanks) : Blanks := { b with cursor := b.cursor.pastMark }

variable (l : Layout) (e : Expected)

@[simp] theorem skipBreak_pastMark (c : Cursor) :
    skipBreak c.pastMark = (skipBreak c).pastMark := by
  simp only [skipBreak, Cursor.looksAt_pastMark, Cursor.advance_pastMark, Cursor.skip_pastMark]
  split_ifs <;> rfl

/-- A string goes as far behind the mark as without it. -/
theorem scanString_pastMark (d : Delimiter) (start : Cursor) (left : List Char)
    (hasContent : Bool) (c : Cursor) :
    l.scanString d start.pastMark left hasContent c.pastMark =
      (l.scanString d start left hasContent c).pastMark := by
  induction left generalizing hasContent c with
  | nil => rfl
  | cons _ left ih =>
    have hnext : lookahead? c.pastMark = lookahead? c := rfl
    simp only [scanString, hnext, Cursor.looksAt_pastMark, Cursor.advance_pastMark,
      ← apply_ite Cursor.pastMark, skipBreak_pastMark, ih]
    cases lookahead? c with
    | none => rfl
    | some ch =>
      simp only [apply_ite StringScan.pastMark]
      rfl

/-- Blanks and comments between two tokens are told by their characters. -/
theorem skipBlanks_pastMark (comments : Bool) (left : List Char) (b : Blanks) :
    skipBlanks comments left b.pastMark = (skipBlanks comments left b).map Blanks.pastMark := by
  induction left generalizing b with
  | nil => rfl
  | cons _ left ih =>
    have hmoved (cursor : Cursor) (sawBreak : Bool) (indent : Nat) (first : Option Nat) :
        skipBlanks comments left ⟨cursor.pastMark, sawBreak, indent, first⟩ =
          (skipBlanks comments left ⟨cursor, sawBreak, indent, first⟩).map Blanks.pastMark :=
      ih ⟨cursor, sawBreak, indent, first⟩
    simp only [skipBlanks, Blanks.pastMark, Cursor.peek?_pastMark, Cursor.advance_pastMark,
      Cursor.skip_pastMark, Cursor.dropWhile_pastMark, Cursor.looksAt_pastMark,
      Cursor.atEnd_pastMark, hmoved]
    cases b.cursor.peek? with
    | none => rfl
    | some ch =>
      simp only [apply_ite (Option.map Blanks.pastMark)]
      rfl

/-- The prefix of a string is told by its characters. -/
theorem scanMarks_pastMark (cs : List Char) (c : Cursor) (d : Delimiter) :
    scanMarks cs c.pastMark d = Prod.map Cursor.pastMark id (scanMarks cs c d) := by
  induction cs generalizing c d with
  | nil => rfl
  | cons ch cs ih =>
    simp only [scanMarks, Cursor.advance_pastMark, ih]
    split_ifs <;> rfl

theorem scanStringStart_pastMark (start : Cursor) :
    l.scanStringStart start.pastMark = (l.scanStringStart start).map Scanned.pastMark := by
  simp only [scanStringStart, Cursor.rest_pastMark, scanMarks_pastMark]
  rcases scanMarks start.rest start ⟨'\x00', false, false, false, false⟩ with ⟨c, d⟩
  simp only [Prod.map, id, Cursor.peek?_pastMark, Cursor.advance_pastMark,
    Cursor.looksAt_pastMark]
  cases c.peek? with
  | none => rfl
  | some quote =>
    dsimp only
    split_ifs <;> rfl

/-- A line is compared with the indents that are open, and these are not moved. -/
theorem scanBreak_pastMark (stop : Cursor) (b : Blanks) :
    l.scanBreak e stop.pastMark b.pastMark = (l.scanBreak e stop b).map Scanned.pastMark := by
  unfold scanBreak
  cases l.indents <;> simp only [apply_ite (Option.map Scanned.pastMark)] <;> rfl

/-- Bytes are only compared with each other, to see whether there was anything between two tokens.
-/
theorem scanBetween_pastMark (start stop : Cursor) :
    l.scanBetween e start.pastMark stop.pastMark =
      (l.scanBetween e start stop).map Scanned.pastMark := by
  have hblanks := skipBlanks_pastMark (e.indent || e.dedent || e.newline || e.exceptWord)
    stop.rest { cursor := stop }
  have hstart : Blanks.pastMark { cursor := stop } = { cursor := stop.pastMark } := rfl
  rw [hstart] at hblanks
  simp only [scanBetween, Cursor.rest_pastMark, hblanks]
  cases skipBlanks (e.indent || e.dedent || e.newline || e.exceptWord) stop.rest
      { cursor := stop } with
  | none => rfl
  | some b =>
    have hcursor : b.pastMark.cursor = b.cursor.pastMark := rfl
    have hbreak : b.pastMark.sawBreak = b.sawBreak := rfl
    have hcomment : b.pastMark.firstComment = b.firstComment := rfl
    have hbyte : (b.cursor.pastMark.position.byte == stop.pastMark.position.byte) =
        (b.cursor.position.byte == stop.position.byte) := by
      simp
    simp only [Option.map_some, hcursor, hbreak, hcomment, scanBreak_pastMark,
      scanStringStart_pastMark, hbyte]
    have hstring : (if b.firstComment.isNone && e.stringStart
          then (l.scanStringStart b.cursor).map Scanned.pastMark else none) =
        (if b.firstComment.isNone && e.stringStart
          then l.scanStringStart b.cursor else none).map Scanned.pastMark := by
      split_ifs <;> rfl
    rw [hstring]
    cases b.sawBreak with
    | false => rfl
    | true =>
      cases l.scanBreak e stop b with
      | none => rfl
      | some found => cases b.cursor.position.byte == stop.position.byte <;> rfl

/-- The scanner finds the token it finds without the mark, in any state and whatever it looks for.
-/
theorem scan_withMark {c : Cursor} (hc : c.Unmarked) :
    l.scan e c.withMark = (l.scan e c).map Scanned.pastMark := by
  have hmarked : (if c.withMark.position.byte == 0 then c.withMark.skip '\ufeff' else c.withMark) =
      c.skipMark.pastMark := hc.skipMark_withMark
  have hplain : (if c.position.byte == 0 then c.skip '\ufeff' else c) = c.skipMark := rfl
  simp only [scan, hmarked, hplain, Cursor.looksAt_pastMark, Cursor.advance_pastMark,
    Cursor.rest_pastMark, scanBetween_pastMark]
  generalize c.skipMark = start
  cases l.delimiters with
  | nil => rfl
  | cons d _ =>
    simp only [scanString_pastMark, apply_ite (Option.map Scanned.pastMark)]
    cases l.scanString d start start.rest false start with
    | found s => rfl
    | nothing => rfl
    | ended stop =>
      simp only [StringScan.pastMark, scanBetween_pastMark]
      rfl

end Layout

/-! ## The lexer -/

/-- A token of the lexer behind the mark, of the same length. -/
def Lexed.pastMark (found : Lexed) : Lexed := { found with start := found.start.pastMark }

/-- Which lexemes are looked for depends on what stands behind the mark. -/
theorem lex_withMark (valid : Grammar.TokenSet) {c : Cursor} (hc : c.Unmarked) :
    lex valid c.withMark = (lex valid c).map Lexed.pastMark := by
  have hmarked : (if c.withMark.position.byte == 0 then c.withMark.skip '\ufeff' else c.withMark) =
      c.skipMark.pastMark := hc.skipMark_withMark
  have hplain : (if c.position.byte == 0 then c.skip '\ufeff' else c) = c.skipMark := rfl
  have hstart (p : Prop) [Decidable p] (d : Cursor) :
      (if p then d.pastMark.dropWhile (· == '\n') else d.pastMark.dropWhile isBlank) =
        (if p then d.dropWhile (· == '\n') else d.dropWhile isBlank).pastMark := by
    split_ifs <;> exact Cursor.dropWhile_pastMark _ _
  have hbyte (start d : Cursor) :
      (start.pastMark.position.byte != d.pastMark.position.byte) =
        (start.position.byte != d.position.byte) := by
    simp [bne]
  unfold lex
  simp only [hmarked, hplain, hstart, hbyte]
  generalize c.skipMark = d
  generalize (if valid.has formatSymbol then d.dropWhile (· == '\n') else d.dropWhile isBlank) =
    start
  rw [Cursor.atEnd_pastMark, Cursor.rest_pastMark]
  split_ifs <;> simp only [Option.map_map, Option.map_some, Option.map_none, Function.comp_def,
    Lexed.pastMark]

end CodeAtlas.Source

namespace CodeAtlas.Syntax

open CodeAtlas.Grammar CodeAtlas.Text

/-! ## Both together -/

/-- A token of either, behind the mark. -/
def Found.pastMark (found : Found) : Found :=
  { found with start := found.start.pastMark, stop := found.stop.pastMark }

/-- The text up to a byte does not depend on where bytes are counted from. -/
theorem textUpTo_go_add (stop bytes : Nat) (byte : Nat) (rest : List Char) :
    textUpTo.go (stop + bytes) (byte + bytes) rest = textUpTo.go stop byte rest := by
  induction rest generalizing byte with
  | nil => rfl
  | cons ch rest ih =>
    rw [textUpTo.go, textUpTo.go, Nat.add_right_comm, ih]
    simp

theorem textUpTo_pastMark (stop : Nat) (c : Cursor) :
    textUpTo (stop + 3) c.pastMark = textUpTo stop c :=
  congrArg String.ofList (textUpTo_go_add stop 3 c.position.byte c.rest)

/-- A tokenizer that finds behind a byte order mark what it finds without it. -/
structure Tokenizer.SkipsMark {σ : Type} (tk : Tokenizer σ) : Prop where
  scan : ∀ (valid : TokenSet) (s : σ) (c : Cursor), c.Unmarked →
    tk.scan valid s c.withMark = (tk.scan valid s c).map (Prod.map Found.pastMark id)
  lex : ∀ (valid : TokenSet) (c : Cursor), c.Unmarked →
    tk.lex valid c.withMark = (tk.lex valid c).map Found.pastMark
  keyword? : ∀ found : Found, tk.keyword? found.pastMark = tk.keyword? found
  skipBlanks : ∀ c : Cursor, 0 < c.position.byte →
    tk.skipBlanks c.pastMark = (tk.skipBlanks c).pastMark
  skipBlanks_pos : ∀ c : Cursor, 0 < c.position.byte → 0 < (tk.skipBlanks c).position.byte

end CodeAtlas.Syntax

namespace CodeAtlas.Source

open CodeAtlas.Syntax CodeAtlas.Text

theorem tokenizer_scan (valid : Grammar.TokenSet) (layout : Layout) (c : Cursor) :
    tokenizer.scan valid layout c = (layout.scan (expected valid) c).map fun s =>
      (⟨layoutSymbols.of s.token,
        if s.stop.position.byte < s.start.position.byte then s.stop else s.start, s.stop⟩,
        s.layout) :=
  rfl

theorem tokenizer_lex (valid : Grammar.TokenSet) (c : Cursor) :
    tokenizer.lex valid c = (lex valid c).map fun found =>
      ⟨found.symbol, found.start, found.start.drop found.length⟩ :=
  rfl

theorem tokenizer_keyword? (found : Found) :
    tokenizer.keyword? found = keyword? (textUpTo found.stop.position.byte found.start) := by
  rw [tokenizer]

theorem tokenizer_skipBlanks {c : Cursor} (hc : 0 < c.position.byte) :
    tokenizer.skipBlanks c = c.dropWhile isBlank := by
  have hbyte : (c.position.byte == 0) = false := by simpa using Nat.ne_of_gt hc
  simp only [tokenizer, hbyte]
  rfl

/-- The scanner and the lexer find behind a mark what they find without it. -/
theorem skipsMark_tokenizer : tokenizer.SkipsMark where
  scan valid layout c hc := by
    rw [tokenizer_scan, tokenizer_scan, Layout.scan_withMark layout (expected valid) hc,
      Option.map_map, Option.map_map]
    refine Option.map_congr fun s _ => ?_
    simp only [Function.comp_apply, Scanned.pastMark, Cursor.position_pastMark,
      Position.byte_pastMark, Nat.add_lt_add_iff_right, ← apply_ite Cursor.pastMark, Prod.map,
      Found.pastMark, id]
  lex valid c hc := by
    rw [tokenizer_lex, tokenizer_lex, lex_withMark valid hc, Option.map_map, Option.map_map]
    refine Option.map_congr fun found _ => ?_
    simp only [Function.comp_apply, Lexed.pastMark, Cursor.drop_pastMark, Found.pastMark]
  keyword? found := by
    rw [tokenizer_keyword?, tokenizer_keyword?]
    exact congrArg keyword? (textUpTo_pastMark found.stop.position.byte found.start)
  skipBlanks c hc := by
    have hmarked : 0 < c.pastMark.position.byte := Nat.succ_pos _
    rw [tokenizer_skipBlanks hc, tokenizer_skipBlanks hmarked, Cursor.dropWhile_pastMark]
  skipBlanks_pos c hc := by
    rw [tokenizer_skipBlanks hc]
    exact Nat.lt_of_lt_of_le hc (Cursor.byte_le_dropWhile_go isBlank c.position c.rest)

end CodeAtlas.Source
