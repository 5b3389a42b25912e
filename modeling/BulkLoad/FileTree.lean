import BulkLoad.Path

/-! # File trees

A tree of directories and files in memory. Every piece of a path but the last has to lead to a
directory, and so has the last if a slash or a dot follows it. Only absolute paths lead anywhere,
and only if their spelling is not too long, so one spelling of a path can be followed and another
not.
-/
namespace BulkLoad

inductive FileNode (α : Type)
  | directory
  | file (content : α)

abbrev Location := List (List Char)

structure FileTree (α : Type) where
  nodes : List (Location × FileNode α)

namespace FileTree

variable {α : Type}

def empty : FileTree α := ⟨[]⟩

def node? (tree : FileTree α) (location : Location) : Option (FileNode α) :=
  if location = [] then some .directory else tree.nodes.lookup location

def isDirectory (tree : FileTree α) (location : Location) : Bool :=
  match tree.node? location with
  | some .directory => true
  | _ => false

/-- One piece of a path further, from a location that has to be a directory. -/
def enter? (tree : FileTree α) (location : Location) (piece : List Char) : Option Location :=
  if tree.isDirectory location then
    match Path.component? false piece with
    | some .parent => some location.dropLast
    | some (.normal name) =>
      if (tree.node? (location ++ [name])).isSome then some (location ++ [name]) else none
    | _ => some location
  else none

/-- The longest spelling that can be followed has fewer bytes. -/
def sizeLimit : Nat := 4096

/-- The pieces of an absolute path; a path with a zero in it leads nowhere. -/
def pieces? (path : Path) : Option (List (List Char)) :=
  if path.size < sizeLimit then
    match path.text.toList with
    | '/' :: rest => if Char.ofNat 0 ∈ rest then none else some (Text.segments '/' rest)
    | _ => none
  else none

def locate? (tree : FileTree α) (path : Path) : Option Location :=
  match pieces? path with
  | none => none
  | some pieces => pieces.foldlM tree.enter? []

def read? (tree : FileTree α) (path : Path) : Option α :=
  match tree.locate? path with
  | none => none
  | some location =>
    match tree.node? location with
    | some (.file content) => some content
    | _ => none

def entries? (tree : FileTree α) (path : Path) : Option (List (Option String)) :=
  match tree.locate? path with
  | none => none
  | some location =>
    if tree.isDirectory location then
      some (tree.nodes.filterMap fun (place, _) =>
        if place.dropLast = location then place.getLast?.map (some ∘ String.ofList) else none)
    else none

def erase (tree : FileTree α) (location : Location) : FileTree α :=
  ⟨tree.nodes.filter fun (place, _) => place ≠ location⟩

/-- Puts a node in a location. A file gives way; a directory stays as it is, and no file takes its
place. -/
def put? (tree : FileTree α) (location : Location) (node : FileNode α) : Option (FileTree α) :=
  match tree.node? location, node with
  | some .directory, .directory => some tree
  | some .directory, .file _ => none
  | _, _ => some ⟨(tree.erase location).nodes ++ [(location, node)]⟩

def remove (tree : FileTree α) (path : Path) : FileTree α :=
  match tree.locate? path with
  | none => tree
  | some location =>
    if tree.isDirectory location then tree else tree.erase location

/-- Goes one piece further and makes a directory where there is nothing; a file bars the way. -/
def makeDirectory? (state : FileTree α × Location) (piece : List Char) :
    Option (FileTree α × Location) :=
  let (tree, location) := state
  match Path.component? false piece with
  | some .parent => some (tree, location.dropLast)
  | some (.normal name) =>
    let below := location ++ [name]
    match tree.node? below with
    | some (.file _) => none
    | _ => (tree.put? below .directory).map fun made => (made, below)
  | _ => some state

/-- Puts a node where the pieces lead and makes the directories above it. Only a directory is
written under pieces that do not end in a name. -/
def write? (tree : FileTree α) (pieces : List (List Char)) (node : FileNode α) :
    Option (FileTree α) :=
  match pieces.dropLast.foldlM makeDirectory? (tree, []) with
  | none => none
  | some (made, location) =>
    match pieces.getLast?.bind (Path.component? false), node with
    | some (.normal name), _ => made.put? (location ++ [name]) node
    | _, .directory => some made
    | _, .file _ => none

/-- Writes a node where the path leads; what cannot be written changes nothing. -/
def write (tree : FileTree α) (path : Path) (node : FileNode α) : FileTree α :=
  match pieces? path with
  | none => tree
  | some pieces => (tree.write? pieces node).getD tree

end FileTree

end BulkLoad
