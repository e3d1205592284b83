import CodeAtlas.Text.Utf8

/-!
# Paths

A path is what a file system has it to be : bytes, of which only the slash and the dot mean something. Its segments
are the parts between the slashes, without those that are empty or a single dot. The extension of a file name is
what stands after its last dot, unless the name begins with that dot.

Nothing makes these bytes UTF-8. Where a path is shown or named, it is read as a text, and what is no text in it is
replaced. So different paths may have the same text.
-/

namespace CodeAtlas

/-- A path, or a name on a path. -/
@[ext]
structure Path where
  bytes : List UInt8
  deriving DecidableEq, Repr, Inhabited

namespace Path

/-! ## Texts -/

/-- The path that is written as a text. -/
def ofString (s : String) : Path := ⟨s.toUTF8.data.toList⟩

instance : Coe String Path := ⟨ofString⟩

/-- The text of a path. What is not UTF-8 is replaced. -/
def text (p : Path) : String := Utf8.decode p.bytes

/-- The text of a path, if it is the path of one. -/
def text? (p : Path) : Option String := if ofString p.text = p then some p.text else none

/-! ## Segments -/

def slash : UInt8 := 0x2F

def dot : UInt8 := 0x2E

def empty : Path := ⟨[]⟩

/-- The name of a directory in itself. -/
def here : Path := ⟨[dot]⟩

/-- The name of the directory above. -/
def parent : Path := ⟨[dot, dot]⟩

/-- The parts of a list between the places of a separator. -/
def splitAtEach {α : Type} [BEq α] (sep : α) : List α → List (List α)
  | [] => [[]]
  | x :: xs =>
    if x == sep then [] :: splitAtEach sep xs
    else
      match splitAtEach sep xs with
      | [] => [[x]]
      | part :: parts => (x :: part) :: parts

/-- All parts of a path between its slashes. -/
def parts (p : Path) : List Path := (splitAtEach slash p.bytes).map mk

/-- The parts of a path that name something. -/
def segments (p : Path) : List Path := p.parts.filter fun s => s != empty && s != here

/-- The path with the given parts. -/
def join (parts : List Path) : Path := ⟨[slash].intercalate (parts.map bytes)⟩

/-! ## File names -/

/-- A file name at its last dot : the stem and the extension. A name without a dot, or with none but a leading
one, has no extension. -/
def splitExtension (name : Path) : Path × Option Path :=
  let bs := name.bytes.reverse
  let ext := bs.takeWhile (· != dot)
  let stem := (bs.dropWhile (· != dot)).drop 1
  if stem.isEmpty then (name, none) else (⟨stem.reverse⟩, some ⟨ext.reverse⟩)

/-- The file name of a path. A path to a parent directory has none. -/
def fileName? (p : Path) : Option Path := p.segments.getLast?.filter (· != parent)

/-- The extension of a path, if it has one. -/
def extension? (p : Path) : Option Path := p.fileName?.bind fun name => name.splitExtension.2

/-- The segments of a path, its last one without an extension. -/
def stemSegments (p : Path) : List Path :=
  match p.fileName? with
  | none => p.segments
  | some name => p.segments.dropLast ++ [name.splitExtension.1]

end Path

end CodeAtlas
