import CodeAtlas.Text.Path

/-!
# Directory trees

A directory has entries under names : files with content and a time of change, directories, and links to other
paths. A tree is a directory with the absolute path at which it stands. Paths are followed through links,
as far as they stay inside the tree.
-/

namespace CodeAtlas.Tree

/-- What stands under a name in a directory. -/
inductive Entry where
  /-- A file : its content, and the time of its last change in nanoseconds. -/
  | file (content : ByteArray) (changed : Int)
  | directory (entries : List (Path × Entry))
  | link (target : Path)

/-- A place in a tree : the names on the way from the top. -/
abbrev Place := List Path

namespace Entry

instance : Inhabited Entry := ⟨.directory []⟩

def isDirectory : Entry → Bool
  | .directory _ => true
  | _ => false

/-- The entry under a name. -/
def child? (name : Path) : Entry → Option Entry
  | .directory entries => entries.lookup name
  | _ => none

/-- The entry at a place. -/
def at? : Place → Entry → Option Entry
  | [], e => some e
  | name :: place, e => (e.child? name).bind (at? place)

/-- The entries of a directory with one replaced or put at the end. -/
def replaced (name : Path) (e : Entry) : List (Path × Entry) → List (Path × Entry)
  | [] => [(name, e)]
  | (n, old) :: rest => if n == name then (n, e) :: rest else (n, old) :: replaced name e rest

/-- Put an entry at a place. Directories on the way are made. -/
def put (e : Entry) : Place → Entry → Entry
  | [], _ => e
  | name :: place, .directory entries =>
    .directory (replaced name (put e place ((entries.lookup name).getD (.directory []))) entries)
  | name :: place, _ => .directory [(name, put e place (.directory []))]

/-- Take away the entry at a place. -/
def erase : Place → Entry → Entry
  | [], e => e
  | [name], .directory entries => .directory (entries.filter fun (n, _) => n != name)
  | name :: place, .directory entries =>
    match entries.lookup name with
    | some inner => .directory (replaced name (erase place inner) entries)
    | none => .directory entries
  | _, e => e

end Entry

end CodeAtlas.Tree

namespace CodeAtlas

/-- A directory tree and the absolute path at which it stands. -/
structure Tree where
  mount : Path
  top : Tree.Entry
  deriving Inhabited

namespace Tree

/-! ## Paths in a tree -/

/-- The number of links that are followed on the way to a place. -/
def linkLimit : Nat := 40

/-- Whether a path does not depend on where it is read : it begins with a slash or is inside the tree. -/
def isAbsolute (t : Tree) (path : Path) : Bool :=
  [Path.slash].isPrefixOf path.bytes || path == t.mount || (t.mount.bytes ++ [Path.slash]).isPrefixOf path.bytes

/-- The parts of an absolute path that come after the path of the tree, if it leads there. -/
def partsBelow? (t : Tree) (path : Path) : Option (List Path) :=
  let mount := t.mount.bytes
  if mount.isPrefixOf path.bytes then
    match path.bytes.drop mount.length with
    | [] => some []
    | b :: rest => if b == Path.slash then some (Path.parts ⟨rest⟩) else none
  else none

/-- Follow parts of a path from a place on, through at most `links` links. Only a directory can be followed
further, even if that is to itself or to its parent. -/
def follow? (t : Tree) (links : Nat) (place : Place) (parts : List Path) : Option Place :=
  match parts with
  | [] => some place
  | part :: rest =>
    match Entry.at? place t.top with
    | some (.directory entries) =>
      if part == Path.empty || part == Path.here then follow? t links place rest
      else if part == Path.parent then
        if place.isEmpty then none else follow? t links place.dropLast rest
      else
        match entries.lookup part with
        | none => none
        | some (.link target) =>
          match links with
          | 0 => none
          | links + 1 =>
            if t.isAbsolute target then
              match t.partsBelow? target with
              | some parts => follow? t links [] (parts ++ rest)
              | none => none
            else follow? t links place (target.parts ++ rest)
        | some _ => follow? t links (place ++ [part]) rest
    | _ => none
termination_by (links, parts.length)

/-- The place of an absolute path. -/
def locate? (t : Tree) (path : Path) : Option Place :=
  (t.partsBelow? path).bind fun parts => t.follow? linkLimit [] parts

/-- The absolute path of a place. -/
def pathOf (t : Tree) (place : Place) : Path := Path.join (t.mount :: place)

/-- The content of the file to which parts of a path lead from a place. -/
def contentAt? (t : Tree) (place : Place) (parts : List Path) : Option ByteArray :=
  match (t.follow? linkLimit place parts).bind fun p => Entry.at? p t.top with
  | some (.file content _) => some content
  | _ => none

/-! ## Changing a tree -/

/-- The place for a new entry : links on the way to its directory are followed. -/
def placeFor (t : Tree) (path : Path) : Place :=
  let names := path.segments
  match t.follow? linkLimit [] names.dropLast with
  | some directory => directory ++ names.getLast?.toList
  | none => names

/-- Write a file. If the path leads to a file already, that one changes. -/
def write (t : Tree) (path : Path) (content : ByteArray) (changed : Int) : Tree :=
  let place := (t.follow? linkLimit [] (path.segments)).getD (t.placeFor path)
  { t with top := Entry.put (.file content changed) place t.top }

/-- Make a directory, unless there is one. -/
def makeDirectory (t : Tree) (path : Path) : Tree :=
  if (t.follow? linkLimit [] (path.segments)).isSome then t
  else { t with top := Entry.put (.directory []) (t.placeFor path) t.top }

/-- Make a link. -/
def makeLink (t : Tree) (path target : Path) : Tree :=
  { t with top := Entry.put (.link target) (t.placeFor path) t.top }

/-- Take away what a path leads to. -/
def remove (t : Tree) (path : Path) : Tree := { t with top := Entry.erase (t.placeFor path) t.top }

end Tree

end CodeAtlas
