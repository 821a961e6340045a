import EventFinder.Tree.Node

/-!
# Following paths

A path is followed step by step from a directory. A symbolic link on the way is replaced by the
steps of its target; at most `maxLinks` links may be met on one path, so that links which lead to
each other are found out and following a path always ends. Only the last step may lead to something
that is no directory. A path of more than `maxPathBytes` bytes is not followed at all, and a name of
more than `maxNameBytes` bytes is not looked for in a directory.

Where a path leads to no file from the current directory, the file can be looked for from the
directories above it (`FileSystem.nearestContent?`).

A `Place` is where a path leads: the names from the top of the file system, without links, and so
the same for two paths exactly if they lead to the same node.
-/

set_option autoImplicit false

namespace EventFinder

/-- The number of symbolic links that may be met on one path. -/
def maxLinks : Nat := 40

/-- The number of bytes that a name may have. -/
def maxNameBytes : Nat := 255

/-- The number of bytes that a path may have. -/
def maxPathBytes : Nat := 4095

/-- Why a path leads nowhere. -/
inductive LookupError where
  /-- An entry on the path is missing. -/
  | notFound
  /-- An entry before the end of the path is no directory. -/
  | notDirectory
  /-- More links than allowed are on the path. -/
  | tooManyLinks
  /-- The path or a name on it is longer than allowed. -/
  | nameTooLong
  deriving DecidableEq, Repr

/-- Where a path leads. -/
structure Place where
  /-- The names from the top of the file system. -/
  names : List Bytes
  /-- What is there. -/
  node : Node
  /-- How many more links may be met on a path that goes on from here. -/
  linksLeft : Nat

/-- Follows steps from a directory that is given by its names, with the way to go on at a link. -/
def followWith (top : Node) (linksLeft : Nat)
    (viaLink : List Bytes → List Step → Except LookupError Place) :
    List Bytes → List Step → Except LookupError Place
  | names, [] =>
    match top.at? names with
    | some node => .ok ⟨names, node, linksLeft⟩
    | none => .error .notFound
  | names, .here :: rest => followWith top linksLeft viaLink names rest
  | names, .up :: rest => followWith top linksLeft viaLink names.dropLast rest
  | names, .name name :: rest =>
    if maxNameBytes < name.length then .error .nameTooLong
    else
      match top.at? (names ++ [name]) with
      | none => .error .notFound
      | some (.link target) =>
        viaLink (if Path.isAbsolute target then [] else names) (Path.steps target ++ rest)
      | some (.file content) =>
        if rest.isEmpty then .ok ⟨names ++ [name], .file content, linksLeft⟩
        else .error .notDirectory
      | some (.directory _) => followWith top linksLeft viaLink (names ++ [name]) rest

/-- Follows steps from a directory and meets at most the given number of links. -/
def follow (top : Node) : Nat → List Bytes → List Step → Except LookupError Place
  | 0 => followWith top 0 fun _ _ => .error .tooManyLinks
  | linksLeft + 1 => followWith top (linksLeft + 1) (follow top linksLeft)

/-- Follows a link that stands in a directory, which counts as one link itself. -/
def followLink (top : Node) (linksLeft : Nat) (directory : List Bytes) (target : Path) :
    Except LookupError Place :=
  match linksLeft with
  | 0 => .error .tooManyLinks
  | linksLeft + 1 =>
    follow top linksLeft (if Path.isAbsolute target then [] else directory) (Path.steps target)

/-- A file system with the directory that relative paths start from. -/
structure FileSystem where
  /-- The directory that holds everything. -/
  top : Node
  /-- The names from the top to the current directory. -/
  current : List Bytes

namespace FileSystem

/-- Where the steps of a path start. -/
def startOf (files : FileSystem) (path : Path) : List Bytes :=
  if path.isAbsolute then [] else files.current

/-- Where a path leads. The empty path leads nowhere. -/
def resolve (files : FileSystem) (path : Path) : Except LookupError Place :=
  if path = [] then .error .notFound
  else if maxPathBytes < path.length then .error .nameTooLong
  else follow files.top maxLinks (files.startOf path) path.steps

/-- Whether a path itself names a symbolic link, wherever that leads. -/
def isLink (files : FileSystem) (path : Path) : Bool :=
  match path.steps.getLast? with
  | some (.name name) =>
    match follow files.top maxLinks (files.startOf path) path.steps.dropLast with
    | .ok place =>
      match files.top.at? (place.names ++ [name]) with
      | some (.link _) => true
      | _ => false
    | .error _ => false
  | _ => false

/-- What the file that a path leads to holds. -/
def content? (files : FileSystem) (path : Path) : Option Bytes :=
  match files.resolve path with
  | .ok ⟨_, .file content, _⟩ => some content
  | _ => none

/-- The names from the top to the current directory and to each directory above it. -/
def directoriesUpwards (files : FileSystem) : List (List Bytes) :=
  (List.range (files.current.length + 1)).map fun levels =>
    files.current.take (files.current.length - levels)

/-- A path as it starts from the current directory and from each directory above it. -/
def pathsUpwards (files : FileSystem) (path : Path) : List Path :=
  if path.isAbsolute then [path]
  else files.directoriesUpwards.map fun names => (Path.ofNames names).join path

/-- What the file holds that a path leads to from the nearest directory upwards from which it leads
to a file. From the current directory the path has to lead to something at least. -/
def nearestContent? (files : FileSystem) (path : Path) : Option Bytes :=
  match files.resolve path with
  | .ok _ => (files.pathsUpwards path).findSome? files.content?
  | .error _ => none

end FileSystem

end EventFinder
