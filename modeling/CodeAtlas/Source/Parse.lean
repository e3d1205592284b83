import CodeAtlas.Source.Lexer
import CodeAtlas.Source.Layout
import CodeAtlas.Syntax.Machine
import CodeAtlas.Syntax.Node

/-!
# Parsing Python

The layout scanner and the lexer together find the tokens of a text; the machine builds its tree.
-/

namespace CodeAtlas.Source

open CodeAtlas.Grammar CodeAtlas.Syntax CodeAtlas.Text

/-- The symbol of a name of the grammar. -/
def symbolOf (name : String) : Nat := flatGrammar.ofName name

/-- The symbol of a literal token. -/
def literalSymbol (text : String) : Nat :=
  ((flatGrammar.lexical.find? fun e => e.2 == Lexeme.literal text).map (·.1)).getD 0

/-- The symbols of the scanner's tokens. -/
def layoutSymbol : LayoutToken → Nat
  | .newline => symbolOf "_newline"
  | .indent => symbolOf "_indent"
  | .dedent => symbolOf "_dedent"
  | .stringStart => symbolOf "string_start"
  | .stringContent => symbolOf "_string_content"
  | .escapedBrace => symbolOf "escape_interpolation"
  | .stringEnd => symbolOf "string_end"

/-- The symbols that the scanner asks about, found once. -/
structure LayoutSymbols where
  newline : Nat
  indent : Nat
  dedent : Nat
  stringStart : Nat
  stringContent : Nat
  escapedBrace : Nat
  stringEnd : Nat
  closingBrackets : TokenSet
  exceptWord : Nat

def layoutSymbols : LayoutSymbols where
  newline := layoutSymbol .newline
  indent := layoutSymbol .indent
  dedent := layoutSymbol .dedent
  stringStart := layoutSymbol .stringStart
  stringContent := layoutSymbol .stringContent
  escapedBrace := layoutSymbol .escapedBrace
  stringEnd := layoutSymbol .stringEnd
  closingBrackets :=
    TokenSet.ofList [literalSymbol ")", literalSymbol "]", literalSymbol "\x7d"]
  exceptWord := literalSymbol "except"

/-- What the parser could use next, in the scanner's terms. -/
def expected (valid : TokenSet) : Expected where
  newline := valid.has layoutSymbols.newline
  indent := valid.has layoutSymbols.indent
  dedent := valid.has layoutSymbols.dedent
  stringStart := valid.has layoutSymbols.stringStart
  stringContent := valid.has layoutSymbols.stringContent
  escapedBrace := valid.has layoutSymbols.escapedBrace
  closingBracket := valid &&& layoutSymbols.closingBrackets != 0
  exceptWord := valid.has layoutSymbols.exceptWord

/-- The symbol of a scanner's token. -/
def LayoutSymbols.of (s : LayoutSymbols) : LayoutToken → Nat
  | .newline => s.newline
  | .indent => s.indent
  | .dedent => s.dedent
  | .stringStart => s.stringStart
  | .stringContent => s.stringContent
  | .escapedBrace => s.escapedBrace
  | .stringEnd => s.stringEnd

/-- How the tokens of Python text are found. -/
def tokenizer : Tokenizer Layout where
  initial := .initial
  scan valid layout place :=
    (layout.scan (expected valid) place).map fun s =>
      let start := if s.stop.position.byte < s.start.position.byte then s.stop else s.start
      (⟨layoutSymbols.of s.token, start, s.stop⟩, s.layout)
  lex valid place :=
    (lex valid place).map fun found => ⟨found.symbol, found.start, found.start.drop found.length⟩
  skipBlanks place :=
    let place := if place.position.byte == 0 then place.skip '\ufeff' else place
    place.dropWhile isBlank
  keyword? found := keyword? (textUpTo found.stop.position.byte found.start)

/-- The automaton of the Python grammar before any text is read. -/
def automaton : Automaton := language.automaton

/-- The tree of a text. -/
structure ParsedText where
  root : Node
  /-- Whether there is an error in it. It may have been mended by a token that no visible node shows. -/
  hasError : Bool
  deriving Inhabited

/-- Parse a text; `none` if the machine gives up. -/
def parse (text : String) : Option ParsedText :=
  (Syntax.parse language tokenizer automaton (Cursor.ofString text)).bind fun tree =>
    (nodesOf language {} tree).head?.map fun root => ⟨root, decide (0 < tree.errorCost)⟩

end CodeAtlas.Source
