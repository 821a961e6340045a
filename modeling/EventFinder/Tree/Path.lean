import EventFinder.Text.Bytes

/-!
# Paths

A path is the bytes that name a file: names with slashes between them. Its `steps` are what
following it does, one after the other; repeated slashes count once, and a slash at the end asks
for a directory just as a dot does.

A location is the text that a path gives to the pattern: its names, as text, with slashes between
them (`Path.location`).
-/

set_option autoImplicit false

namespace EventFinder

/-- A path as it is written. -/
abbrev Path := Bytes

/-- The byte between the names of a path. -/
def slash : UInt8 := 0x2F

/-- The byte that names the directory itself, and twice the one above it. -/
def dot : UInt8 := 0x2E

/-- One step of following a path. -/
inductive Step where
  /-- Stay in the directory. -/
  | here
  /-- Go to the directory above. -/
  | up
  /-- Go to the entry with this name. -/
  | name (name : Bytes)
  deriving DecidableEq, Repr

namespace Step

/-- The step that a piece between two slashes stands for. -/
def ofPiece? (piece : Bytes) : Option Step :=
  if piece = [] then none
  else if piece = [dot] then some here
  else if piece = [dot, dot] then some up
  else some (name piece)

/-- The name that the step goes to, if it goes to one. -/
def name? : Step → Option Bytes
  | name bytes => some bytes
  | _ => none

end Step

namespace Path

/-- Whether the path starts at the top of the file system. -/
def isAbsolute (path : Path) : Bool :=
  path.head? == some slash

/-- Whether the path asks for a directory by a slash at its end. -/
def endsWithSlash (path : Path) : Bool :=
  path.getLast? == some slash

/-- The steps of following the path. -/
def steps (path : Path) : List Step :=
  (path.splitOn slash).filterMap Step.ofPiece? ++ if path.endsWithSlash then [.here] else []

/-- The names in the path, in order. -/
def names (path : Path) : List Bytes :=
  path.steps.filterMap Step.name?

/-- The name that the path ends with. A path that ends by going up, or that never leaves the
directory it starts in, has none. -/
def fileName? (path : Path) : Option Bytes :=
  match (path.steps.filter (· ≠ .here)).getLast? with
  | some (.name name) => some name
  | _ => none

/-- The path of an entry in the directory with the given path. -/
def join (directory name : Path) : Path :=
  if directory = [] ∨ directory.endsWithSlash then directory ++ name
  else directory ++ slash :: name

/-- The path from the top of the file system along the given names. -/
def ofNames : List Bytes → Path
  | [] => [slash]
  | names => names.flatMap (slash :: ·)

/-- The text of the names in the path, with slashes between them. -/
def location (path : Path) : Text :=
  ['/'].intercalate (path.names.map Bytes.toText)

/-- The path as messages and reports show it. -/
def shown (path : Path) : Text :=
  Bytes.toText path

end Path

end EventFinder
