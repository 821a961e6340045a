import EventFinder.Tree.Path

/-!
# File trees

A file tree is what a directory holds: files, symbolic links and further directories, each under a
name. The entries of a directory stand in the order of the bytes of their names, which is the order
in which they are visited; `add` and `addDirectory` keep it.
-/

set_option autoImplicit false

namespace EventFinder

/-- A file, a symbolic link or a directory with its entries. -/
inductive Node where
  /-- A file with its content. -/
  | file (content : Bytes)
  /-- A symbolic link with the path that it points to. -/
  | link (target : Path)
  /-- A directory with its entries in the order of their names. -/
  | directory (entries : List (Bytes × Node))

namespace Node

/-- The empty directory. -/
def empty : Node :=
  directory []

/-- Whether the node is a directory. A link to one is none. -/
def isDirectory : Node → Bool
  | directory _ => true
  | _ => false

/-- The node that names lead to from a directory, without going through links. -/
def at? : Node → List Bytes → Option Node
  | node, [] => some node
  | directory entries, name :: rest => (entries.lookup name).bind fun node => at? node rest
  | _, _ :: _ => none

/-- Changes the entry with the given name. `change` is given the node that stands there, if any. -/
def alter (name : Bytes) (change : Option Node → Node) :
    List (Bytes × Node) → List (Bytes × Node)
  | [] => [(name, change none)]
  | (other, node) :: rest =>
    if other = name then (other, change (some node)) :: rest
    else if name < other then (name, change none) :: (other, node) :: rest
    else (other, node) :: alter name change rest

/-- Changes the node that names lead to. The directories on the way are made where they are
missing. -/
def change (leaf : Option Node → Node) : List Bytes → Option Node → Node
  | [], old => leaf old
  | name :: rest, some (directory entries) => directory (alter name (change leaf rest) entries)
  | name :: rest, _ => directory (alter name (change leaf rest) [])

/-- The tree with a node under the given names, in place of what stands there. -/
def add (tree : Node) (names : List Bytes) (node : Node) : Node :=
  change (fun _ => node) names (some tree)

/-- The tree with a file under the given names. -/
def addFile (names : List Bytes) (content : Bytes) (tree : Node) : Node :=
  tree.add names (file content)

/-- The tree with a symbolic link under the given names. -/
def addLink (names : List Bytes) (target : Path) (tree : Node) : Node :=
  tree.add names (link target)

/-- A directory, and the one that stands there already if there is one. -/
def orDirectory : Option Node → Node
  | some (directory entries) => directory entries
  | _ => empty

/-- The tree with a directory under the given names. -/
def addDirectory (names : List Bytes) (tree : Node) : Node :=
  change orDirectory names (some tree)

end Node

end EventFinder
