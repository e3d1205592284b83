/-!
# Lexemes

The classes of tokens that Python text is made of, apart from those that depend on layout or on an open
string.
-/

namespace CodeAtlas.Source

/-- A class of tokens. -/
inductive Lexeme where
  /-- A keyword, an operator or a bracket. -/
  | literal (text : String)
  | identifier
  | integer
  | float
  /-- A backslash and what it escapes inside a string. -/
  | escape
  /-- A backslash inside a string that escapes nothing. -/
  | backslash
  /-- The literal part of a format specifier. -/
  | formatText
  /-- An exclamation mark and a letter after a replacement expression. -/
  | conversion
  /-- A number sign and the rest of the line. -/
  | comment
  /-- A backslash at the end of a line. -/
  | continuation
  deriving DecidableEq, Repr, Inhabited

namespace Lexeme

/-- The text of a lexeme that has only one. -/
def literal? : Lexeme → Option String
  | .literal text => some text
  | _ => none

/-- Whether a text is made of letters and underscores. -/
def isWordText (text : String) : Bool :=
  text.toList.all fun c => c.isAlpha || c == '_'

/-- The text of a keyword : an identifier where the grammar wants one, itself where the grammar wants it.
`except` is none, because of the longer token that starts with it. -/
def keyword? : Lexeme → Option String
  | .literal text => if isWordText text && text != "except" then some text else none
  | _ => none

end Lexeme

end CodeAtlas.Source
