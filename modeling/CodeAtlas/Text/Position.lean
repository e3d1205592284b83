/-!
# Positions in a text

A position counts the bytes of the UTF-8 encoding before it, the rows, and the bytes before it in its row.
Only a line feed ends a row. A `Cursor` is a position with the characters that follow it.
-/

namespace CodeAtlas.Text

/-- A place in a text. -/
structure Position where
  byte : Nat
  row : Nat
  column : Nat
  deriving DecidableEq, Repr, Inhabited

namespace Position

/-- The beginning of a text. -/
def zero : Position := ⟨0, 0, 0⟩

/-- The position after a character. -/
def after (p : Position) (c : Char) : Position :=
  if c == '\n' then ⟨p.byte + 1, p.row + 1, 0⟩
  else ⟨p.byte + c.utf8Size, p.row, p.column + c.utf8Size⟩

end Position

/-- A position with the rest of the text. -/
structure Cursor where
  position : Position
  rest : List Char
  deriving Inhabited

namespace Cursor

/-- The beginning of a text. -/
def ofString (text : String) : Cursor := ⟨.zero, text.toList⟩

/-- The next character. -/
def peek? (c : Cursor) : Option Char := c.rest.head?

def atEnd (c : Cursor) : Bool := c.rest.isEmpty

/-- Whether the next character is `ch`. -/
def looksAt (c : Cursor) (ch : Char) : Bool := c.rest.head? == some ch

/-- Step over one character; at the end stay there. -/
def advance (c : Cursor) : Cursor :=
  match c.rest with
  | [] => c
  | ch :: rest => ⟨c.position.after ch, rest⟩

/-- Step over the next character if it is `ch`. -/
def skip (c : Cursor) (ch : Char) : Cursor :=
  if c.looksAt ch then c.advance else c

/-- Step over the first `n` characters of `rest`. -/
def drop : Nat → Cursor → Cursor
  | 0, c => c
  | n + 1, c => drop n c.advance

/-- Step over the characters that satisfy `p`. -/
def dropWhile (p : Char → Bool) (c : Cursor) : Cursor :=
  go c.position c.rest
where
  go : Position → List Char → Cursor
    | position, [] => ⟨position, []⟩
    | position, ch :: rest => if p ch then go (position.after ch) rest else ⟨position, ch :: rest⟩

end Cursor

end CodeAtlas.Text
