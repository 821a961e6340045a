import EventFinder.Finder

/-!
# The command line

The outermost layer of the program: it reads the variables of the environment and the part of the
file system that the arguments are about, and writes what `runProgram` makes of them. Paths are
followed on the disk as they are followed in a file tree, so that links stay links there.
-/

set_option autoImplicit false

namespace EventFinder

/-- The number of levels below the root on which a search enters directories: all of them if it
collects nothing. -/
def Search.enteredLevels (search : Search) : Option Nat :=
  if search.depth = 0 then none else some (search.depth - 1)

namespace Disk

/-- The names from the top of the file system to a place. -/
def namesOf (place : String) : List Bytes :=
  Path.names (Text.toBytes place.toList)

/-- The path of an entry of a directory. -/
def entryOf (directory : String) (name : Bytes) : String :=
  directory ++ "/" ++ String.ofList name.toText

/-- The place behind all links on the way to it. -/
def realPlace (place : String) : IO String := do
  return (← IO.FS.realPath place).toString

/-- What stands at a place itself, whether or not it is a link. -/
def kindOf (place : String) : IO IO.FS.FileType := do
  let path := (← IO.currentDir) / place
  return (← path.symlinkMetadata).type

/-- A failure of the disk at a place, as a scan reports it. -/
def scanError (place : String) (error : IO.Error) : ScanError :=
  let kind : SystemErrorKind :=
    match error with
    | .noFileOrDirectory .. => .notFound
    | .permissionDenied .. => .permissionDenied
    | _ => .other
  (ScanError.ofSystem ⟨kind, error.toString.toList⟩).withPath (Text.toBytes place.toList)

/-- The entries of a directory, with what stands there. -/
def entries (place : String) : IO (List (String × IO.FS.FileType)) := do
  let path := (← IO.currentDir) / place
  (← path.readDir).toList.mapM fun entry => do
    return (entry.fileName, ← kindOf entry.path.toString)

/-- What a directory holds. Directories in it are read too, down to the given number of levels, or
all of them; files and links are read as far as a scan looks at them. -/
partial def readDirectory (levels : Option Nat) (place : String) : ExceptT ScanError IO Node := do
  match ← (entries place).toBaseIO with
  | .error error => throw (scanError place error)
  | .ok found =>
    found.foldlM (fun tree (name, kind) => do
      let bytes := Text.toBytes name.toList
      let node ←
        match kind, levels with
        | .symlink, _ => pure (Node.link [])
        | .dir, some 0 => pure Node.empty
        | .dir, levels => readDirectory (levels.map (· - 1)) (entryOf place bytes)
        | _, _ => pure (Node.file [])
      return tree.add [bytes] node) Node.empty

/-- Follows steps from a place, and adds what lies on the way to the tree. -/
def followFrom (tree : Node) (place : String) : List Step → IO (Node × String)
  | [] => return (tree, place)
  | .here :: rest => followFrom tree place rest
  | .up :: rest => do followFrom tree (← realPlace (place ++ "/..")) rest
  | .name name :: rest => do
    let next := entryOf place name
    match ← kindOf next with
    | .symlink =>
      let real ← realPlace next
      let tree := tree.addLink (namesOf next) (Text.toBytes real.toList)
      followFrom (tree.addDirectory (namesOf real)) real rest
    | .dir => followFrom (tree.addDirectory (namesOf next)) next rest
    | _ => followFrom (tree.addFile (namesOf next) []) next rest

/-- The file system with what lies on the way to a path, and the place that the path leads to. -/
def follow (files : FileSystem) (path : Path) : IO (FileSystem × String) := do
  let current ← IO.currentDir
  let start := if path.isAbsolute then "/" else current.toString
  let (top, place) ← followFrom files.top start path.steps
  return ({ files with top }, place)

/-- The file system with what a path leads to, if it leads anywhere: a file with its content. -/
def addPlaceAt (files : FileSystem) (path : Path) : IO FileSystem := do
  try
    let (files, place) ← follow files path
    if (← kindOf place) matches .file then
      let content ← IO.FS.readBinFile place
      return { files with top := files.top.addFile (namesOf place) content.toList }
    else return files
  catch _ => return files

/-- The file system with what a path leads to from the current directory and those above it. -/
def addPlacesUpwards (files : FileSystem) (path : Path) : IO FileSystem :=
  (files.pathsUpwards path).foldlM addPlaceAt files

/-- The file system with the directory that the root of a search leads to, if it leads to one. -/
def addRoot (files : FileSystem) (search : Search) : ExceptT ScanError IO FileSystem := do
  match ← (follow files search.settings.images.root).toBaseIO with
  | .error _ => return files
  | .ok (files, place) =>
    if (← kindOf place) matches .dir then
      let node ← readDirectory search.enteredLevels place
      return { files with top := files.top.add (namesOf place) node }
    else return files

/-- The file system that holds the current directory and nothing else. -/
def bare : IO FileSystem := do
  let current := namesOf (← realPlace (← IO.currentDir).toString)
  return { top := Node.empty.addDirectory current, current }

/-- The variables of the environment. -/
def environment : IO Environment := do
  try return .ofBlock (← IO.FS.readBinFile "/proc/self/environ").toList
  catch _ => return []

end Disk

/-- Writes what a run leaves, and gives its exit code. -/
def ProgramResult.report (result : ProgramResult) : IO UInt32 := do
  (← IO.getStdout).putStr (String.ofList result.streams.output)
  (← IO.getStderr).putStr (String.ofList result.streams.diagnostics)
  return result.exitCode.toUInt32

/-- Runs the program on the disk and the streams of the process, and gives its exit code. The
settings file tells where the search starts, and is added once more behind the searched tree. -/
def runOnDisk (arguments : List Text) : IO UInt32 := do
  let environment ← Disk.environment
  let bare ← Disk.bare
  let settingsFile := Settings.filePath environment
  let run (files : FileSystem) : IO UInt32 := do
    (runProgram (← Disk.addPlacesUpwards files settingsFile) environment arguments).report
  match requestedSearch? (← Disk.addPlacesUpwards bare settingsFile) environment arguments with
  | none => run bare
  | some search =>
    match ← (Disk.addRoot bare search).run with
    | .ok files => run files
    | .error error =>
      (ProgramResult.ofFailure search.flags.debug (debugNote search.flags.debug)
        (.ofScanError error)).report

end EventFinder

/-- Runs the program. -/
def main (arguments : List String) : IO UInt32 :=
  EventFinder.runOnDisk (arguments.map String.toList)
