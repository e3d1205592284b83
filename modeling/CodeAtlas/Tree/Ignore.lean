import CodeAtlas.Tree.Entry
import CodeAtlas.Tree.Glob

/-!
# Ignore files

A directory may have three files that say which entries below it are left out : `.ignore`, `.gitignore`, and
`.git/info/exclude`. Each is a list of patterns, one a line. The last pattern that describes a path decides, and
a pattern after `!` keeps what it describes.

Of the three kinds the first one that decides wins, and of one kind the file of the innermost directory.
-/

namespace CodeAtlas.Tree

/-! ## Patterns -/

/-- A line of an ignore file. -/
structure IgnorePattern where
  glob : List Glob.Token
  /-- Whether what it describes is kept. -/
  keeps : Bool
  /-- Whether it is about directories only. -/
  directoriesOnly : Bool
  deriving Inhabited

/-- White space of any script. -/
def isSpace (c : Char) : Bool :=
  let n := c.toNat
  (9 ≤ n && n ≤ 13) || n == 0x20 || n == 0x85 || n == 0xA0 || n == 0x1680 || (0x2000 ≤ n && n ≤ 0x200A) ||
    n == 0x2028 || n == 0x2029 || n == 0x202F || n == 0x205F || n == 0x3000

/-- A line without white space at its end, unless that is escaped. -/
def trimEnd (line : List Char) : List Char :=
  if [' ', '\\'].isPrefixOf line.reverse then line else (line.reverse.dropWhile isSpace).reverse

/-- Whether two characters begin a text. -/
def beginsWith (start line : List Char) : Bool := start.isPrefixOf line

/-- A pattern without its slash at the end, and whether it had one. A backslash before the slash goes
too. -/
def withoutFinalSlash (line : List Char) : List Char × Bool :=
  match line.reverse with
  | '/' :: '\\' :: rest => (rest.reverse, true)
  | '/' :: rest => (rest.reverse, true)
  | _ => (line, false)

/-- The glob of a pattern. One without a slash describes entries in any directory, and two stars at the end
describe what is inside a directory and not the directory itself. -/
def globText (anchored : Bool) (line : List Char) : List Char :=
  let free := !anchored && !line.contains '/' && line != ['*', '*']
  let text := if free then ['*', '*', '/'] ++ line else line
  if ['*', '*', '/'].isPrefixOf text.reverse then text ++ ['/', '*'] else text

/-- The pattern of a line; there is none in a comment, an empty line, or a line that is no glob. -/
def IgnorePattern.ofLine? (line : List Char) : Option IgnorePattern :=
  if beginsWith ['#'] line then none
  else
    let line := trimEnd line
    if line.isEmpty then none
    else
      let escaped := beginsWith ['\\', '!'] line || beginsWith ['\\', '#'] line
      let keeps := !escaped && beginsWith ['!'] line
      let line := if escaped || keeps then line.drop 1 else line
      let anchored := !escaped && beginsWith ['/'] line
      let line := if anchored then line.drop 1 else line
      let (line, directoriesOnly) := withoutFinalSlash line
      (Glob.ofString? (String.ofList (globText anchored line))).map fun glob =>
        { glob, keeps, directoriesOnly }

/-! ## Files -/

/-- The lines of a file. A line end may have a carriage return before it. -/
def linesOf : List UInt8 → List UInt8 → List (List UInt8)
  | line, [] => if line.isEmpty then [] else [line.reverse]
  | line, b :: bs =>
    if b == 10 then
      (match line with
        | 13 :: line => line.reverse
        | line => line.reverse) :: linesOf [] bs
    else linesOf (b :: line) bs

/-- Texts up to the first one that is not UTF-8. -/
def decodedLines : List (List UInt8) → List (List Char)
  | [] => []
  | line :: lines =>
    match String.fromUTF8? ⟨line.toArray⟩ with
    | some s => s.toList :: decodedLines lines
    | none => []

/-- The patterns of an ignore file. Byte order marks at its beginning are passed over. -/
def patternsOf (content : ByteArray) : List IgnorePattern :=
  match decodedLines (linesOf [] content.toList) with
  | [] => []
  | first :: others =>
    (first.dropWhile (· == '\ufeff') :: others).filterMap IgnorePattern.ofLine?

/-- What a list of patterns says of a path : whether it is ignored, if one of them describes it. -/
def verdict? (patterns : List IgnorePattern) (path : List UInt8) (isDirectory : Bool) : Option Bool :=
  (patterns.reverse.find? fun p =>
    (isDirectory || !p.directoriesOnly) && Glob.describes p.glob path).map fun p => !p.keeps

/-- The ignore files of a directory. -/
structure IgnoreRules where
  place : Place
  plain : List IgnorePattern
  versioned : List IgnorePattern
  excluded : List IgnorePattern
  deriving Inhabited

/-- The ignore files of the directory at a place. -/
def ignoreRulesAt (t : Tree) (place : Place) : IgnoreRules :=
  let read (parts : List Path) : List IgnorePattern :=
    match t.contentAt? place parts with
    | some content => patternsOf content
    | none => []
  { place
    plain := read [".ignore"]
    versioned := read [".gitignore"]
    excluded := read [".git", "info", "exclude"] }

/-- The ignore files of all directories down to a place, innermost first. -/
def ignoreRulesDownTo (t : Tree) (place : Place) : List IgnoreRules :=
  (List.range (place.length + 1)).reverse.map fun n => t.ignoreRulesAt (place.take n)

/-- Whether ignore files leave out the entry at a place. -/
def isIgnored (rules : List IgnoreRules) (place : Place) (isDirectory : Bool) : Bool :=
  let ask (patterns : IgnoreRules → List IgnorePattern) : Option Bool :=
    rules.findSome? fun r =>
      verdict? (patterns r) (Path.join (place.drop r.place.length)).bytes isDirectory
  (ask (·.plain) <|> ask (·.versioned) <|> ask (·.excluded)).getD false

end CodeAtlas.Tree
