import CodeAtlas.Text.Position

/-!
# Layout

The scanner for the tokens that depend on what stands before them : the end of a statement, the beginning
and end of a block, and the parts of a string. It is asked before the lexer, with the tokens that the parser
could use next, and keeps the open blocks and the open strings.

A block ends only after the comments that are indented as far as it is. A line feed, a carriage return
and a form feed start the count of the indentation anew; a tab counts eight.
-/

namespace CodeAtlas.Source

open CodeAtlas.Text

/-- An open string. -/
structure Delimiter where
  quote : Char
  raw : Bool
  format : Bool
  bytes : Bool
  triple : Bool
  deriving DecidableEq, Repr

/-- What is open at a place in the text. -/
structure Layout where
  /-- The indentations of the open blocks, the innermost first. -/
  indents : List Nat
  /-- The open strings, the innermost first. -/
  delimiters : List Delimiter
  insideFormat : Bool
  deriving DecidableEq, Repr

/-- Nothing is open at the beginning of a text. -/
def Layout.initial : Layout := ⟨[0], [], false⟩

/-- The tokens of the scanner. -/
inductive LayoutToken where
  | newline
  | indent
  | dedent
  | stringStart
  | stringContent
  | escapedBrace
  | stringEnd
  deriving DecidableEq, Repr

/-- What the parser could use next. -/
structure Expected where
  newline : Bool
  indent : Bool
  dedent : Bool
  stringStart : Bool
  stringContent : Bool
  escapedBrace : Bool
  closingBracket : Bool
  exceptWord : Bool

/-- The parser takes anything : it looks for a way to go on after an error. -/
def Expected.anything (e : Expected) : Bool := e.stringContent && e.indent

/-- A token that the scanner found, and what is open after it. -/
structure Scanned where
  token : LayoutToken
  layout : Layout
  start : Cursor
  stop : Cursor

/-- What a scan of a string comes to : a token, nothing at all, or the end of the text. -/
inductive StringScan where
  | found (s : Scanned)
  | nothing
  | ended (c : Cursor)

namespace Layout

/-! ## Inside a string -/

/-- The layout after the innermost string ends. -/
def closeString (l : Layout) : Layout :=
  { l with delimiters := l.delimiters.drop 1, insideFormat := false }

/-- The next character, if it is not a null character. -/
def lookahead? (c : Cursor) : Option Char := c.peek?.filter (· != '\x00')

/-- Step over a line break. -/
def skipBreak (c : Cursor) : Cursor :=
  if c.looksAt '\r' then c.advance.skip '\n' else c.skip '\n'

/-- Read the content of the innermost string up to its end, an escape or a replacement field. Each step uses
at least one of the characters that are left. -/
def scanString (l : Layout) (d : Delimiter) (start : Cursor) :
    (left : List Char) → Bool → Cursor → StringScan
  | [], _, c => .ended c
  | _ :: left, hasContent, c =>
    let content (stop : Cursor) : StringScan := .found ⟨.stringContent, l, start, stop⟩
    let contentIfAny (stop : Cursor) : StringScan := if hasContent then content stop else .nothing
    match lookahead? c with
    | none => .ended c
    | some ch =>
      if (ch == '\x7b' || ch == '\x7d') && d.format then contentIfAny c
      else if ch == '\\' then
        if d.raw then
          let c := c.advance
          let c := if c.looksAt d.quote || c.looksAt '\\' then c.advance else c
          scanString l d start left hasContent (skipBreak c)
        else if d.bytes then
          let mark := c
          let c := c.advance
          if c.looksAt 'N' || c.looksAt 'u' || c.looksAt 'U' then
            scanString l d start left true c.advance.advance
          else contentIfAny mark
        else contentIfAny c
      else if ch == d.quote then
        if d.triple then
          let one := c.advance
          if one.looksAt d.quote then
            let two := one.advance
            if two.looksAt d.quote then
              if hasContent then content c
              else .found ⟨.stringEnd, l.closeString, start, two.advance⟩
            else content two
          else content one
        else if hasContent then content c
        else .found ⟨.stringEnd, l.closeString, start, c.advance⟩
      else if ch == '\n' && hasContent && !d.triple then .nothing
      else scanString l d start left true c.advance

/-! ## Between tokens -/

/-- What stands before the next token. -/
structure Blanks where
  /-- Where the next token starts. -/
  cursor : Cursor
  sawBreak : Bool := false
  indent : Nat := 0
  /-- The indentation of the first comment on a line of its own. -/
  firstComment : Option Nat := none

/-- Step over blanks, line breaks, continued lines and, where a statement can end or begin, comments on
lines of their own; `none` at a comment that ends a line or at a lone backslash. Each step uses at least one
of the characters that are left. -/
def skipBlanks (comments : Bool) : (left : List Char) → Blanks → Option Blanks
  | [], b => some { b with sawBreak := true, indent := 0 }
  | _ :: left, b =>
    match b.cursor.peek? with
    | none => some { b with sawBreak := true, indent := 0 }
    | some ch =>
      let next := b.cursor.advance
      if ch == '\n' then skipBlanks comments left { b with cursor := next, sawBreak := true, indent := 0 }
      else if ch == ' ' then skipBlanks comments left { b with cursor := next, indent := b.indent + 1 }
      else if ch == '\r' || ch == '\x0c' then
        skipBlanks comments left { b with cursor := next, indent := 0 }
      else if ch == '\t' then skipBlanks comments left { b with cursor := next, indent := b.indent + 8 }
      else if ch == '#' && comments then
        if !b.sawBreak then none
        else
          let rest := b.cursor.dropWhile fun c => c != '\n' && c != '\x00'
          skipBlanks comments left
            { b with cursor := rest.advance, indent := 0, firstComment := b.firstComment <|> some b.indent }
      else if ch == '\\' then
        let c := next.skip '\r'
        if c.looksAt '\n' || c.atEnd then skipBlanks comments left { b with cursor := c.advance }
        else none
      else some b

/-- The letters before a quote, with what they say of the string. -/
def scanMarks : List Char → Cursor → Delimiter → Cursor × Delimiter
  | [], c, d => (c, d)
  | ch :: rest, c, d =>
    if ch == 'f' || ch == 'F' then scanMarks rest c.advance { d with format := true }
    else if ch == 'r' || ch == 'R' then scanMarks rest c.advance { d with raw := true }
    else if ch == 'b' || ch == 'B' then scanMarks rest c.advance { d with bytes := true }
    else if ch == 'u' || ch == 'U' then scanMarks rest c.advance d
    else (c, d)

/-- The beginning of a string. -/
def scanStringStart (l : Layout) (start : Cursor) : Option Scanned :=
  let (c, d) := scanMarks start.rest start ⟨'\x00', false, false, false, false⟩
  let opened (d : Delimiter) (stop : Cursor) : Option Scanned :=
    some ⟨.stringStart, { l with delimiters := d :: l.delimiters, insideFormat := d.format }, start, stop⟩
  match c.peek? with
  | none => none
  | some quote =>
    if quote == '\x60' then opened { d with quote } c.advance
    else if quote == '\'' || quote == '"' then
      let one := c.advance
      if one.looksAt quote && one.advance.looksAt quote then
        opened { d with quote, triple := true } one.advance.advance
      else opened { d with quote } one
    else none

/-- The end of a line : a block that begins or ends there, or the end of a statement. -/
def scanBreak (l : Layout) (e : Expected) (stop : Cursor) (b : Blanks) : Option Scanned :=
  let token (t : LayoutToken) (l : Layout) : Option Scanned := some ⟨t, l, stop, stop⟩
  let newline := if e.newline && !e.anything then token .newline l else none
  match l.indents with
  | [] => newline
  | current :: outer =>
    let atString := b.cursor.looksAt '"' || b.cursor.looksAt '\'' || b.cursor.looksAt '\x60'
    let mayEnd :=
      e.dedent || (!e.newline && !(e.stringStart && atString) && !e.closingBracket)
    let commentsDone :=
      match b.firstComment with
      | none => true
      | some n => decide (n < current)
    if e.indent && decide (current < b.indent) then
      token .indent { l with indents := b.indent % 65536 :: l.indents }
    else if mayEnd && decide (b.indent < current) && !l.insideFormat && commentsDone then
      token .dedent { l with indents := outer }
    else newline

/-- Scan between tokens : blanks first, then the end of a line or the beginning of a string. The token ends
at `stop` unless it is the beginning of a string. -/
def scanBetween (l : Layout) (e : Expected) (start stop : Cursor) : Option Scanned :=
  let comments := e.indent || e.dedent || e.newline || e.exceptWord
  match skipBlanks comments stop.rest { cursor := stop } with
  | none => none
  | some b =>
    let fromBreak :=
      if b.sawBreak then (l.scanBreak e stop b).map fun s =>
        -- A token that starts before the blanks covers what was read of an open string.
        if b.cursor.position.byte == stop.position.byte then { s with start := start } else s
      else none
    match fromBreak with
    | some s => some s
    | none =>
      if b.firstComment.isNone && e.stringStart then
        l.scanStringStart b.cursor
      else none

/-- The next token of the scanner. -/
def scan (l : Layout) (e : Expected) (from' : Cursor) : Option Scanned :=
  let start := if from'.position.byte == 0 then from'.skip '\ufeff' else from'
  match l.delimiters with
  | [] => l.scanBetween e start start
  | d :: _ =>
    if e.escapedBrace && !e.anything && d.format && (start.looksAt '\x7b' || start.looksAt '\x7d') then
      let brace := if start.looksAt '\x7b' then '\x7b' else '\x7d'
      if start.advance.looksAt brace then
        some ⟨.escapedBrace, l, start, start.advance.advance⟩
      else none
    else if e.stringContent && !e.anything then
      match l.scanString d start start.rest false start with
      | .found s => some s
      | .nothing => none
      | .ended c => l.scanBetween e start c
    else l.scanBetween e start start

end Layout

end CodeAtlas.Source
