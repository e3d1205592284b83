/-!
# Grammar rules

A grammar is a list of named rules over tokens of a type `τ`. A rule body is built from references,
tokens, sequences, choices and repetitions, and carries the annotations that steer the parser : a static
precedence with a side, a dynamic precedence, a field name and an alias.

A name that starts with an underscore is hidden : its node does not appear in the tree, its children
stand in its place.
-/

namespace CodeAtlas.Grammar

/-- The side to which a chain of equal operators associates. -/
inductive Side where
  | left
  | right
  deriving DecidableEq, Hashable, Repr

/-- The kind under which a node is shown. An unnamed kind is one that is written as a literal. -/
structure Alias where
  kind : String
  named : Bool
  deriving DecidableEq, Hashable, Repr

/-- The body of a rule. -/
inductive Rule (τ : Type) where
  /-- Nothing at all. -/
  | blank
  /-- A rule, token or scanner token by name. -/
  | ref (name : String)
  /-- A token. -/
  | token (t : τ)
  /-- The parts one after the other. -/
  | seq (parts : List (Rule τ))
  /-- Any one of the parts. -/
  | choice (parts : List (Rule τ))
  /-- One or more of the body. -/
  | many1 (body : Rule τ)
  /-- The body at a static precedence. -/
  | prec (level : Int) (side : Option Side) (body : Rule τ)
  /-- The body with a dynamic precedence, which decides between surviving readings. -/
  | dynamic (level : Int) (body : Rule τ)
  /-- The body, its nodes reached by a field name. -/
  | field (name : String) (body : Rule τ)
  /-- The body, its nodes shown under another kind. -/
  | shown (as : Alias) (body : Rule τ)

namespace Rule

variable {τ : Type}

/-- The body or nothing. -/
def opt (body : Rule τ) : Rule τ :=
  .choice [body, .blank]

/-- Any number of the body. -/
def many (body : Rule τ) : Rule τ :=
  .choice [.many1 body, .blank]

/-- One or more of the body with `separator` between them. -/
def sepBy1 (body separator : Rule τ) : Rule τ :=
  .seq [body, many (.seq [separator, body])]

mutual

/-- The tokens of a body, from left to right, with repetitions. -/
def tokens : Rule τ → List τ
  | .blank => []
  | .ref _ => []
  | .token t => [t]
  | .seq parts => tokensOfAll parts
  | .choice parts => tokensOfAll parts
  | .many1 body => body.tokens
  | .prec _ _ body => body.tokens
  | .dynamic _ body => body.tokens
  | .field _ body => body.tokens
  | .shown _ body => body.tokens

/-- The tokens of several bodies. -/
def tokensOfAll : List (Rule τ) → List τ
  | [] => []
  | part :: rest => part.tokens ++ tokensOfAll rest

end

end Rule

/-- A grammar : its rules in order, the first being the start, and what holds of some of them. -/
structure Definition (τ : Type) where
  /-- The named rules. A rule whose whole body is one token that no other rule uses names that token. -/
  rules : List (String × Rule τ)
  /-- The text of a token that is written literally, and so is its own unnamed kind. -/
  literal? : τ → Option String
  /-- Rules that are replaced by their alternatives wherever they are used. -/
  inlined : List String
  /-- Rules that only classify : their nodes are hidden though their names are not. -/
  classes : List String
  /-- Rules whose nodes are always shown under another kind. -/
  shownAs : List (String × Alias)
  /-- Tokens that the layout scanner supplies. -/
  scanned : List String
  /-- Tokens that may stand between any two tokens. -/
  extras : List String
  /-- The token of which every keyword is an instance. -/
  word : String

/-- A rule name that starts with an underscore is hidden. -/
def isHiddenName (name : String) : Bool :=
  name.toList.head? == some '_'

end CodeAtlas.Grammar
