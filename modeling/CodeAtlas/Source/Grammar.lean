import CodeAtlas.Grammar.Automaton
import CodeAtlas.Source.Modes

/-!
# The Python grammar

The rules of Python's statements, expressions and patterns. The grammar takes in more than Python 3 : the
print and exec statements, tuple parameters, the two spellings of inequality and commas in except clauses
are read here and judged afterwards.

The precedences say how tightly an operator binds; those of the same level associate to the side given.
-/

namespace CodeAtlas.Source

open CodeAtlas.Grammar

namespace Rules

/-- A rule of this grammar. -/
abbrev R := Rule Lexeme

/-- A literal token. -/
def t (text : String) : R := .token (.literal text)

/-- A rule or token by name. -/
def r (name : String) : R := .ref name

def comma1 (body : R) : R := .sepBy1 body (t ",")

def optComma : R := .opt (t ",")

def left (level : Int) (body : R) : R := .prec level (some .left) body

def right (level : Int) (body : R) : R := .prec level (some .right) body

def prec (level : Int) (body : R) : R := .prec level none body

/-- The body, shown as nodes of a named kind. -/
def shownAs (kind : String) (body : R) : R := .shown ⟨kind, true⟩ body

/-! ## Precedence levels -/

def lambdaLevel : Int := -2
def typedParameterLevel : Int := -1
def conditionalLevel : Int := -1
def parenthesizedLevel : Int := 1
def orLevel : Int := 10
def andLevel : Int := 11
def notLevel : Int := 12
def compareLevel : Int := 13
def bitOrLevel : Int := 14
def bitAndLevel : Int := 15
def bitXorLevel : Int := 16
def shiftLevel : Int := 17
def plusLevel : Int := 18
def timesLevel : Int := 19
def unaryLevel : Int := 20
def powerLevel : Int := 21
def callLevel : Int := 22

/-! ## Simple statements -/

def simpleStatements : List (String × R) :=
  [ ("module", .many (r "_statement")),
    ("_statement", .choice [r "_simple_statements", r "_compound_statement"]),
    ("_simple_statements",
      .seq [.sepBy1 (r "_simple_statement") (t ";"), .opt (t ";"), r "_newline"]),
    ("_simple_statement", .choice
      [ r "future_import_statement", r "import_statement", r "import_from_statement",
        r "print_statement", r "assert_statement", r "expression_statement", r "return_statement",
        r "delete_statement", r "raise_statement", r "pass_statement", r "break_statement",
        r "continue_statement", r "global_statement", r "nonlocal_statement", r "exec_statement",
        r "type_alias_statement" ]),
    ("import_statement", .seq [t "import", r "_import_list"]),
    ("import_prefix", .many1 (t ".")),
    ("relative_import", .seq [r "import_prefix", .opt (r "dotted_name")]),
    ("future_import_statement", .seq
      [ t "from", t "__future__", t "import",
        .choice [r "_import_list", .seq [t "(", r "_import_list", t ")"]] ]),
    ("import_from_statement", .seq
      [ t "from", .field "module_name" (.choice [r "relative_import", r "dotted_name"]), t "import",
        .choice [r "wildcard_import", r "_import_list", .seq [t "(", r "_import_list", t ")"]] ]),
    ("_import_list", .seq
      [ comma1 (.field "name" (.choice [r "dotted_name", r "aliased_import"])), optComma ]),
    ("aliased_import", .seq
      [ .field "name" (r "dotted_name"), t "as", .field "alias" (r "identifier") ]),
    ("wildcard_import", t "*"),
    ("print_statement", .choice
      [ prec 1 (.seq
          [ t "print", r "chevron", .many (.seq [t ",", .field "argument" (r "expression")]),
            optComma ]),
        prec (-3) (.dynamic (-1) (.seq
          [t "print", comma1 (.field "argument" (r "expression")), optComma])) ]),
    ("chevron", .seq [t ">>", r "expression"]),
    ("assert_statement", .seq [t "assert", comma1 (r "expression")]),
    ("expression_statement", .choice
      [ r "expression", .seq [comma1 (r "expression"), optComma], r "assignment",
        r "augmented_assignment", r "yield" ]),
    ("named_expression", .seq
      [.field "name" (r "_named_expression_lhs"), t ":=", .field "value" (r "expression")]),
    ("_named_expression_lhs", .choice [r "identifier", r "keyword_identifier"]),
    ("return_statement", .seq [t "return", .opt (r "_expressions")]),
    ("delete_statement", .seq [t "del", r "_expressions"]),
    ("_expressions", .choice [r "expression", r "expression_list"]),
    ("raise_statement", .seq
      [ t "raise", .opt (r "_expressions"), .opt (.seq [t "from", .field "cause" (r "expression")]) ]),
    ("pass_statement", left 0 (t "pass")),
    ("break_statement", left 0 (t "break")),
    ("continue_statement", left 0 (t "continue")) ]

/-! ## Compound statements -/

def suite (fieldName : String) : R := .field fieldName (r "_suite")

def compoundStatements : List (String × R) :=
  [ ("_compound_statement", .choice
      [ r "if_statement", r "for_statement", r "while_statement", r "try_statement",
        r "with_statement", r "function_definition", r "class_definition", r "decorated_definition",
        r "match_statement" ]),
    ("if_statement", .seq
      [ t "if", .field "condition" (r "expression"), t ":", suite "consequence",
        .many (.field "alternative" (r "elif_clause")),
        .opt (.field "alternative" (r "else_clause")) ]),
    ("elif_clause", .seq
      [t "elif", .field "condition" (r "expression"), t ":", suite "consequence"]),
    ("else_clause", .seq [t "else", t ":", suite "body"]),
    ("match_statement", .seq
      [ t "match", comma1 (.field "subject" (r "expression")), optComma, t ":",
        .field "body" (r "_match_block") ]),
    ("_match_block", .choice
      [ .seq [r "_indent", .many (.field "alternative" (r "case_clause")), r "_dedent"],
        r "_newline" ]),
    ("case_clause", .seq
      [ t "case", comma1 (r "case_pattern"), optComma, .opt (.field "guard" (r "if_clause")), t ":",
        suite "consequence" ]),
    ("for_statement", .seq
      [ .opt (t "async"), t "for", .field "left" (r "_left_hand_side"), t "in",
        .field "right" (r "_expressions"), t ":", suite "body",
        .field "alternative" (.opt (r "else_clause")) ]),
    ("while_statement", .seq
      [ t "while", .field "condition" (r "expression"), t ":", suite "body",
        .opt (.field "alternative" (r "else_clause")) ]),
    ("try_statement", .seq
      [ t "try", t ":", suite "body",
        .choice
          [ .seq [.many1 (r "except_clause"), .opt (r "else_clause"), .opt (r "finally_clause")],
            .seq [.many1 (r "except_group_clause"), .opt (r "else_clause"), .opt (r "finally_clause")],
            r "finally_clause" ] ]),
    ("except_clause", .seq
      [ t "except",
        .opt (.seq
          [ .field "value" (r "expression"),
            .opt (.seq [.choice [t "as", t ","], .field "alias" (r "expression")]) ]),
        t ":", r "_suite" ]),
    ("except_group_clause", .seq
      [ t "except*", .seq [r "expression", .opt (.seq [t "as", r "expression"])], t ":", r "_suite" ]),
    ("finally_clause", .seq [t "finally", t ":", r "_suite"]),
    ("with_statement", .seq
      [.opt (t "async"), t "with", r "with_clause", t ":", suite "body"]),
    ("with_clause", .choice
      [ .seq [comma1 (r "with_item"), optComma],
        .seq [t "(", comma1 (r "with_item"), optComma, t ")"] ]),
    ("with_item", .dynamic 1 (.seq [.field "value" (r "expression")])),
    ("function_definition", .seq
      [ .opt (t "async"), t "def", .field "name" (r "identifier"),
        .field "type_parameters" (.opt (r "type_parameter")), .field "parameters" (r "parameters"),
        .opt (.seq [t "->", .field "return_type" (r "type")]), t ":", suite "body" ]),
    ("parameters", .seq [t "(", .opt (r "_parameters"), t ")"]),
    ("lambda_parameters", r "_parameters"),
    ("list_splat", .seq [t "*", r "expression"]),
    ("dictionary_splat", .seq [t "**", r "expression"]),
    ("global_statement", .seq [t "global", comma1 (r "identifier")]),
    ("nonlocal_statement", .seq [t "nonlocal", comma1 (r "identifier")]),
    ("exec_statement", .seq
      [ t "exec", .field "code" (.choice [r "string", r "identifier"]),
        .opt (.seq [t "in", comma1 (r "expression")]) ]),
    ("type_alias_statement", .dynamic 1 (.seq
      [t "type", .field "left" (r "type"), t "=", .field "right" (r "type")])),
    ("class_definition", .seq
      [ t "class", .field "name" (r "identifier"),
        .field "type_parameters" (.opt (r "type_parameter")),
        .field "superclasses" (.opt (r "argument_list")), t ":", suite "body" ]),
    ("type_parameter", .seq [t "[", comma1 (r "type"), optComma, t "]"]),
    ("parenthesized_list_splat", prec parenthesizedLevel (.seq
      [ t "(",
        .choice [shownAs "parenthesized_expression" (r "parenthesized_list_splat"), r "list_splat"],
        t ")" ])),
    ("argument_list", .seq
      [ t "(",
        .opt (comma1 (.choice
          [ r "expression", r "list_splat", r "dictionary_splat",
            shownAs "parenthesized_expression" (r "parenthesized_list_splat"),
            r "keyword_argument" ])),
        optComma, t ")" ]),
    ("decorated_definition", .seq
      [ .many1 (r "decorator"),
        .field "definition" (.choice [r "class_definition", r "function_definition"]) ]),
    ("decorator", .seq [t "@", r "expression", r "_newline"]),
    ("_suite", .choice
      [ shownAs "block" (r "_simple_statements"), .seq [r "_indent", r "block"],
        shownAs "block" (r "_newline") ]),
    ("block", .seq [.many (r "_statement"), r "_dedent"]),
    ("expression_list", right 0 (.seq
      [ r "expression",
        .choice [t ",", .seq [.many1 (.seq [t ",", r "expression"]), optComma]] ])),
    ("dotted_name", prec 1 (.sepBy1 (r "identifier") (t "."))) ]

/-! ## Match cases -/

def number : R := .choice [r "integer", r "float"]

def matchCases : List (String × R) :=
  [ ("case_pattern", prec 1 (.choice
      [r "_as_pattern", r "keyword_pattern", r "_simple_pattern"])),
    ("_simple_pattern", prec 1 (.choice
      [ r "class_pattern", r "splat_pattern", r "union_pattern", r "_list_pattern",
        r "_tuple_pattern", r "dict_pattern", r "string", r "concatenated_string", r "true", r "false",
        r "none", .seq [.opt (t "-"), number], r "complex_pattern", r "dotted_name", t "_" ])),
    ("_as_pattern", .seq [r "case_pattern", t "as", r "identifier"]),
    ("union_pattern", right 0 (.seq
      [r "_simple_pattern", .many1 (left 0 (.seq [t "|", r "_simple_pattern"]))])),
    ("_list_pattern", .seq [t "[", .opt (.seq [comma1 (r "case_pattern"), optComma]), t "]"]),
    ("_tuple_pattern", .seq [t "(", .opt (.seq [comma1 (r "case_pattern"), optComma]), t ")"]),
    ("dict_pattern", .seq
      [ t "\x7b",
        .opt (.seq [comma1 (.choice [r "_key_value_pattern", r "splat_pattern"]), optComma]),
        t "\x7d" ]),
    ("_key_value_pattern", .seq
      [.field "key" (r "_simple_pattern"), t ":", .field "value" (r "case_pattern")]),
    ("keyword_pattern", .seq [r "identifier", t "=", r "_simple_pattern"]),
    ("splat_pattern", prec 1 (.seq
      [.choice [t "*", t "**"], .choice [r "identifier", t "_"]])),
    ("class_pattern", .seq
      [r "dotted_name", t "(", .opt (.seq [comma1 (r "case_pattern"), optComma]), t ")"]),
    ("complex_pattern", prec 1 (.seq [.opt (t "-"), number, .choice [t "+", t "-"], number])) ]

/-! ## Parameters and patterns -/

def splatTarget : R :=
  .choice [r "identifier", r "keyword_identifier", r "subscript", r "attribute"]

def patterns : List (String × R) :=
  [ ("_parameters", .seq [comma1 (r "parameter"), optComma]),
    ("_patterns", .seq [comma1 (r "pattern"), optComma]),
    ("parameter", .choice
      [ r "identifier", r "typed_parameter", r "default_parameter", r "typed_default_parameter",
        r "list_splat_pattern", r "tuple_pattern", r "keyword_separator", r "positional_separator",
        r "dictionary_splat_pattern" ]),
    ("pattern", .choice
      [ r "identifier", r "keyword_identifier", r "subscript", r "attribute", r "list_splat_pattern",
        r "tuple_pattern", r "list_pattern" ]),
    ("tuple_pattern", .seq [t "(", .opt (r "_patterns"), t ")"]),
    ("list_pattern", .seq [t "[", .opt (r "_patterns"), t "]"]),
    ("default_parameter", .seq
      [ .field "name" (.choice [r "identifier", r "tuple_pattern"]), t "=",
        .field "value" (r "expression") ]),
    ("typed_default_parameter", prec typedParameterLevel (.seq
      [ .field "name" (r "identifier"), t ":", .field "type" (r "type"), t "=",
        .field "value" (r "expression") ])),
    ("list_splat_pattern", .seq [t "*", splatTarget]),
    ("dictionary_splat_pattern", .seq [t "**", splatTarget]),
    ("as_pattern", left 0 (.seq
      [ r "expression", t "as",
        .field "alias" (shownAs "as_pattern_target" (r "expression")) ])) ]

/-! ## Expressions -/

/-- An operator between two operands. -/
def binary (operator : String) (level : Int) (side : Side) : R :=
  .prec level (some side) (.seq
    [ .field "left" (r "primary_expression"), .field "operator" (t operator),
      .field "right" (r "primary_expression") ])

def expressions : List (String × R) :=
  [ ("_expression_within_for_in_clause", .choice
      [r "expression", r "lambda_within_for_in_clause"]),
    ("expression", .choice
      [ r "comparison_operator", r "not_operator", r "boolean_operator", r "lambda",
        r "primary_expression", r "conditional_expression", r "named_expression", r "as_pattern" ]),
    ("primary_expression", .choice
      [ r "await", r "binary_operator", r "identifier", r "keyword_identifier", r "string",
        r "concatenated_string", r "integer", r "float", r "true", r "false", r "none",
        r "unary_operator", r "attribute", r "subscript", r "call", r "list", r "list_comprehension",
        r "dictionary", r "dictionary_comprehension", r "set", r "set_comprehension", r "tuple",
        r "parenthesized_expression", r "generator_expression", r "ellipsis",
        shownAs "list_splat" (r "list_splat_pattern") ]),
    ("not_operator", prec notLevel (.seq [t "not", .field "argument" (r "expression")])),
    ("boolean_operator", .choice
      [ left andLevel (.seq
          [ .field "left" (r "expression"), .field "operator" (t "and"),
            .field "right" (r "expression") ]),
        left orLevel (.seq
          [ .field "left" (r "expression"), .field "operator" (t "or"),
            .field "right" (r "expression") ]) ]),
    ("binary_operator", .choice
      [ binary "+" plusLevel .left, binary "-" plusLevel .left, binary "*" timesLevel .left,
        binary "@" timesLevel .left, binary "/" timesLevel .left, binary "%" timesLevel .left,
        binary "//" timesLevel .left, binary "**" powerLevel .right, binary "|" bitOrLevel .left,
        binary "&" bitAndLevel .left, binary "^" bitXorLevel .left, binary "<<" shiftLevel .left,
        binary ">>" shiftLevel .left ]),
    ("unary_operator", prec unaryLevel (.seq
      [ .field "operator" (.choice [t "+", t "-", t "~"]),
        .field "argument" (r "primary_expression") ])),
    ("_not_in", .seq [t "not", t "in"]),
    ("_is_not", .seq [t "is", t "not"]),
    ("comparison_operator", left compareLevel (.seq
      [ r "primary_expression",
        .many1 (.seq
          [ .field "operators" (.choice
              [ t "<", t "<=", t "==", t "!=", t ">=", t ">", t "<>", t "in", r "_not_in", t "is",
                r "_is_not" ]),
            r "primary_expression" ]) ])),
    ("lambda", prec lambdaLevel (.seq
      [ t "lambda", .field "parameters" (.opt (r "lambda_parameters")), t ":",
        .field "body" (r "expression") ])),
    ("lambda_within_for_in_clause", .seq
      [ t "lambda", .field "parameters" (.opt (r "lambda_parameters")), t ":",
        .field "body" (r "_expression_within_for_in_clause") ]),
    ("assignment", .seq
      [ .field "left" (r "_left_hand_side"),
        .choice
          [ .seq [t "=", .field "right" (r "_right_hand_side")],
            .seq [t ":", .field "type" (r "type")],
            .seq [ t ":", .field "type" (r "type"), t "=",
              .field "right" (r "_right_hand_side") ] ] ]),
    ("augmented_assignment", .seq
      [ .field "left" (r "_left_hand_side"),
        .field "operator" (.choice
          [ t "+=", t "-=", t "*=", t "/=", t "@=", t "//=", t "%=", t "**=", t ">>=", t "<<=", t "&=",
            t "^=", t "|=" ]),
        .field "right" (r "_right_hand_side") ]),
    ("_left_hand_side", .choice [r "pattern", r "pattern_list"]),
    ("pattern_list", .seq
      [ r "pattern",
        .choice [t ",", .seq [.many1 (.seq [t ",", r "pattern"]), optComma]] ]),
    ("_right_hand_side", .choice
      [ r "expression", r "expression_list", r "assignment", r "augmented_assignment",
        r "pattern_list", r "yield" ]),
    ("yield", right 0 (.seq
      [t "yield", .choice [.seq [t "from", r "expression"], .opt (r "_expressions")]])),
    ("attribute", prec callLevel (.seq
      [ .field "object" (r "primary_expression"), t ".", .field "attribute" (r "identifier") ])),
    ("subscript", prec callLevel (.seq
      [ .field "value" (r "primary_expression"), t "[",
        comma1 (.field "subscript" (.choice [r "expression", r "slice"])), optComma, t "]" ])),
    ("slice", .seq
      [ .opt (r "expression"), t ":", .opt (r "expression"),
        .opt (.seq [t ":", .opt (r "expression")]) ]),
    ("ellipsis", t "..."),
    ("call", prec callLevel (.seq
      [ .field "function" (r "primary_expression"),
        .field "arguments" (.choice [r "generator_expression", r "argument_list"]) ])),
    ("typed_parameter", prec typedParameterLevel (.seq
      [ .choice [r "identifier", r "list_splat_pattern", r "dictionary_splat_pattern"], t ":",
        .field "type" (r "type") ])),
    ("type", .choice
      [ prec 1 (r "expression"), r "splat_type", r "generic_type", r "union_type",
        r "constrained_type", r "member_type" ]),
    ("splat_type", prec 1 (.seq [.choice [t "*", t "**"], r "identifier"])),
    ("generic_type", prec 1 (.seq
      [.choice [r "identifier", shownAs "identifier" (t "type")], r "type_parameter"])),
    ("union_type", left 0 (.seq [r "type", t "|", r "type"])),
    ("constrained_type", right 0 (.seq [r "type", t ":", r "type"])),
    ("member_type", .seq [r "type", t ".", r "identifier"]),
    ("keyword_argument", .seq
      [ .field "name" (.choice [r "identifier", r "keyword_identifier"]), t "=",
        .field "value" (r "expression") ]) ]

/-! ## Displays, comprehensions and literals -/

def displays : List (String × R) :=
  [ ("list", .seq [t "[", .opt (r "_collection_elements"), t "]"]),
    ("set", .seq [t "\x7b", r "_collection_elements", t "\x7d"]),
    ("tuple", .seq [t "(", .opt (r "_collection_elements"), t ")"]),
    ("dictionary", .seq
      [ t "\x7b", .opt (comma1 (.choice [r "pair", r "dictionary_splat"])), optComma, t "\x7d" ]),
    ("pair", .seq [.field "key" (r "expression"), t ":", .field "value" (r "expression")]),
    ("list_comprehension", .seq
      [t "[", .field "body" (r "expression"), r "_comprehension_clauses", t "]"]),
    ("dictionary_comprehension", .seq
      [t "\x7b", .field "body" (r "pair"), r "_comprehension_clauses", t "\x7d"]),
    ("set_comprehension", .seq
      [t "\x7b", .field "body" (r "expression"), r "_comprehension_clauses", t "\x7d"]),
    ("generator_expression", .seq
      [t "(", .field "body" (r "expression"), r "_comprehension_clauses", t ")"]),
    ("_comprehension_clauses", .seq
      [r "for_in_clause", .many (.choice [r "for_in_clause", r "if_clause"])]),
    ("parenthesized_expression", prec parenthesizedLevel (.seq
      [t "(", .choice [r "expression", r "yield"], t ")"])),
    ("_collection_elements", .seq
      [ comma1 (.choice
          [r "expression", r "yield", r "list_splat", r "parenthesized_list_splat"]),
        optComma ]),
    ("for_in_clause", left 0 (.seq
      [ .opt (t "async"), t "for", .field "left" (r "_left_hand_side"), t "in",
        .field "right" (comma1 (r "_expression_within_for_in_clause")), optComma ])),
    ("if_clause", .seq [t "if", r "expression"]),
    ("conditional_expression", right conditionalLevel (.seq
      [r "expression", t "if", r "expression", t "else", r "expression"])),
    ("concatenated_string", .seq [r "string", .many1 (r "string")]),
    ("string", .seq
      [ r "string_start", .many (.choice [r "interpolation", r "string_content"]), r "string_end" ]),
    ("string_content", right 0 (.many1 (.choice
      [ r "escape_interpolation", r "escape_sequence", r "_not_escape_sequence",
        r "_string_content" ]))),
    ("interpolation", .seq
      [ t "\x7b", .field "expression" (r "_f_expression"), .opt (t "="),
        .opt (.field "type_conversion" (r "type_conversion")),
        .opt (.field "format_specifier" (r "format_specifier")), t "\x7d" ]),
    ("_f_expression", .choice
      [r "expression", r "expression_list", r "pattern_list", r "yield"]),
    ("escape_sequence", .token .escape),
    ("_not_escape_sequence", .token .backslash),
    ("format_specifier", .seq
      [ t ":",
        .many (.choice [.token .formatText, shownAs "format_expression" (r "interpolation")]) ]),
    ("type_conversion", .token .conversion),
    ("integer", .token .integer),
    ("float", .token .float),
    ("identifier", .token .identifier),
    ("keyword_identifier", .choice
      [ prec (-3) (shownAs "identifier" (.choice [t "print", t "exec", t "async", t "await"])),
        shownAs "identifier" (.choice [t "type", t "match"]) ]),
    ("true", t "True"),
    ("false", t "False"),
    ("none", t "None"),
    ("await", prec unaryLevel (.seq [t "await", r "primary_expression"])),
    ("comment", .token .comment),
    ("line_continuation", .token .continuation),
    ("positional_separator", t "/"),
    ("keyword_separator", t "*") ]

end Rules

/-- The Python grammar. -/
def grammar : Definition Lexeme where
  rules := Rules.simpleStatements ++ Rules.compoundStatements ++ Rules.matchCases ++ Rules.patterns ++
    Rules.expressions ++ Rules.displays
  literal? := Lexeme.literal?
  inlined :=
    [ "_simple_statement", "_compound_statement", "_suite", "_expressions", "_left_hand_side",
      "keyword_identifier" ]
  classes :=
    [ "_simple_statement", "_compound_statement", "expression", "primary_expression", "pattern",
      "parameter" ]
  shownAs :=
    [ ("_match_block", ⟨"block", true⟩), ("_as_pattern", ⟨"as_pattern", true⟩),
      ("_list_pattern", ⟨"list_pattern", true⟩), ("_tuple_pattern", ⟨"tuple_pattern", true⟩),
      ("_not_in", ⟨"not in", false⟩), ("_is_not", ⟨"is not", false⟩),
      ("lambda_within_for_in_clause", ⟨"lambda", true⟩) ]
  scanned :=
    [ "_newline", "_indent", "_dedent", "string_start", "_string_content", "escape_interpolation",
      "string_end" ]
  extras := ["comment", "line_continuation"]
  word := "identifier"

/-- The grammar with numbered symbols. -/
def flatGrammar : Flat Lexeme := grammar.flatten

/-- The literal part of a format specifier is the one token that recovery does not look for. -/
def language : Language :=
  flatGrammar.prepare
    ((flatGrammar.lexical.filter fun e => e.2 == Lexeme.formatText).map (·.1))
    (tokenModes flatGrammar.lexical)

end CodeAtlas.Source
