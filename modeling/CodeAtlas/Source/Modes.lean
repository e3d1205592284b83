import CodeAtlas.Grammar.Item
import CodeAtlas.Source.Lexeme

/-!
# Lexemes that are looked for together

Where only some lexemes can be used, others are looked for as well, so that a misplaced token is found as
what it is. A lexeme is left out where it would hide one that can be used : `...` hides the first of three
points, `**` the first of two stars.
-/

namespace CodeAtlas.Source

open CodeAtlas.Grammar

namespace Lexeme

/-- Lexemes that hide others. -/
def hidingPairs : List (Lexeme × Lexeme) :=
  [ (.identifier, .literal "except"), (.literal "except", .identifier),
    (.literal "except*", .identifier), (.literal "except*", .literal "except"),
    (.literal ":=", .literal ":"), (.literal "->", .literal "-"), (.literal "-", .literal "->"),
    (.literal "**", .literal "*"), (.literal "**=", .literal "*"), (.literal "...", .literal "."),
    (.escape, .backslash), (.escape, .continuation), (.float, .integer) ]

/-- Whether looking for one lexeme could keep another from being found. The literal part of a format
specifier and all others hide each other. -/
def hides (a b : Lexeme) : Bool :=
  a != b && (a == .formatText || b == .formatText || hidingPairs.contains (a, b))

end Lexeme

/-- A group of lexemes that are looked for together. -/
structure Mode where
  lexemes : List Lexeme
  /-- Whether the end of the text is looked for. -/
  atEnd : Bool := false

namespace Mode

def literals (texts : List String) : List Lexeme := texts.map .literal

/-- Found everywhere. -/
def everywhere : List Lexeme := [.comment, .continuation]

def comparisons : List Lexeme := literals ["<", "<=", "==", "!=", ">=", ">", "<>"]

/-- What can follow an operand and go on with an operator, a call, an index or an attribute. -/
def continuations : List Lexeme :=
  literals ["(", "[", ".", "*", "**", "+", "-", "/", "//", "%", "@", "&", "^", "|", "<<", ">>"] ++
    comparisons

def augmented : List Lexeme :=
  literals
    ["+=", "-=", "*=", "/=", "@=", "//=", "%=", "**=", ">>=", "<<=", "&=", "^=", "|="]

/-- What only starts an operand. -/
def operands : List Lexeme := literals ["...", "\x7b", "~"] ++ [.integer, .float]

def separators : List Lexeme := literals [",", ":", ";", "="]

def closing : List Lexeme := literals [")", "]", "\x7d"]

/-- What starts a statement. -/
def starting : List Lexeme :=
  .identifier :: literals ["(", "[", "*", "+", "-"] ++ operands

/-- All but the literal part of a format specifier. -/
def any : List Lexeme :=
  starting ++ continuations ++ augmented ++ separators ++ closing ++
    literals [":=", "->", "except", "except*"] ++ [.escape, .backslash, .conversion]

def walrus : List Lexeme := literals [":="]

end Mode

open Mode in
/-- The groups. The first one that is compatible with the lexemes that can be used is taken. -/
def modes : List Mode :=
  [ { lexemes := any, atEnd := true },
    { lexemes := starting ++ comparisons ++ separators ++ closing ++ literals ["@", "|"] ++ [.conversion]
      atEnd := true },
    { lexemes := .identifier :: continuations ++ augmented ++ operands ++ separators ++ walrus },
    { lexemes := .identifier :: continuations ++ operands ++ separators ++ walrus ++ closing ++
        [.conversion] },
    { lexemes := .identifier :: continuations ++ augmented ++ operands ++ separators },
    { lexemes := .identifier :: continuations ++ operands ++ separators ++ closing ++ [.conversion] },
    { lexemes := starting ++ augmented ++ literals [":", ";", "="] },
    { lexemes := .identifier :: continuations ++ augmented ++ separators ++ walrus ++ closing },
    { lexemes := starting ++ literals ["@", "except"], atEnd := true },
    { lexemes := starting ++ literals ["@", "except*"], atEnd := true },
    { lexemes := .identifier :: continuations ++ augmented ++ separators ++ literals [")", "]"] },
    { lexemes := .identifier :: continuations ++ separators ++ closing ++ [.conversion] },
    { lexemes := .identifier :: continuations ++ separators ++ walrus ++ closing ++ [.conversion] },
    { lexemes := .identifier :: literals ["->", ":", "except", "except*"] },
    { lexemes := .formatText :: literals ["\x7b", "\x7d"] } ]

/-- The groups as sets of the tokens of a grammar. -/
def tokenModes (lexical : List (Nat × Lexeme)) : Modes where
  groups := modes.map fun m =>
    TokenSet.ofList
      ((if m.atEnd then [0] else []) ++
        (lexical.filter fun e => (m.lexemes ++ Mode.everywhere).contains e.2).map (·.1))
  hidden := lexical.filterMap fun (token, lexeme) =>
    let others := lexical.filter fun e => lexeme.hides e.2
    if others.isEmpty then none else some (token, TokenSet.ofList (others.map (·.1)))
  words := TokenSet.ofList ((lexical.filter fun e => e.2.keyword?.isSome).map (·.1))

end CodeAtlas.Source
