import EventFinder.Tree.Lookup

/-!
# Scan errors

Why a directory tree cannot be scanned. An error has a kind, the path that it concerns where that is
known, and what the system says about it.
-/

set_option autoImplicit false

namespace EventFinder

/-- The failures of the system that a scan tells apart. -/
inductive SystemErrorKind where
  | notFound
  | permissionDenied
  /-- Every other failure. -/
  | other
  deriving DecidableEq, Repr

/-- A failure that the system reports, with its text. -/
structure SystemError where
  kind : SystemErrorKind
  text : Text
  deriving DecidableEq, Repr

/-- What the system says about a path that leads nowhere. -/
def LookupError.systemError : LookupError → SystemError
  | .notFound => ⟨.notFound, "No such file or directory (os error 2)".toList⟩
  | .notDirectory => ⟨.other, "Not a directory (os error 20)".toList⟩
  | .tooManyLinks => ⟨.other, "Too many levels of symbolic links (os error 40)".toList⟩
  | .nameTooLong => ⟨.other, "File name too long (os error 36)".toList⟩

/-- The kinds of scan errors. -/
inductive ScanErrorKind where
  /-- The directory does not exist. -/
  | notFound
  /-- The directory must not be read. -/
  | permissionDenied
  /-- A link leads back to a directory that contains it. -/
  | loop
  /-- Every other failure. -/
  | other
  deriving DecidableEq, Repr

/-- Why a directory tree cannot be scanned. -/
structure ScanError where
  kind : ScanErrorKind
  path : Option Path := none
  cause : Option SystemError := none
  deriving DecidableEq, Repr

namespace ScanError

/-- The error that a directory does not exist. -/
def notFound (path : Path) : ScanError :=
  { kind := .notFound, path := some path }

/-- The error that a directory must not be read. -/
def permissionDenied (path : Path) (cause : SystemError) : ScanError :=
  { kind := .permissionDenied, path := some path, cause := some cause }

/-- The error that a link leads back to a directory that contains it. -/
def loop (path : Path) : ScanError :=
  { kind := .loop, path := some path }

/-- The error that a failure of the system is, with no path. -/
def ofSystem (cause : SystemError) : ScanError where
  kind := match cause.kind with
    | .notFound => .notFound
    | .permissionDenied => .permissionDenied
    | .other => .other
  cause := some cause

/-- The error with the path that it concerns. -/
def withPath (error : ScanError) (path : Path) : ScanError :=
  { error with path := some path }

/-- The error that a path leads nowhere. -/
def ofLookup (error : LookupError) (path : Path) : ScanError :=
  (ofSystem error.systemError).withPath path

/-- The given words and the path of the error, or the other words if it has none. -/
def about (error : ScanError) (withPath withoutPath : String) : Text :=
  match error.path with
  | some path => withPath.toList ++ Path.shown path
  | none => withoutPath.toList

/-- The error in words. -/
def message (error : ScanError) : Text :=
  match error.kind with
  | .notFound => error.about "Directory not found: " "Directory not found"
  | .permissionDenied => error.about "Permission denied for directory: " "Permission denied"
  | .loop => error.about "Filesystem loop detected at: " "Filesystem loop detected"
  | .other =>
    error.about "I/O error at " "I/O error" ++
      match error.cause with
      | some cause => ": ".toList ++ cause.text
      | none => []

end ScanError

end EventFinder
