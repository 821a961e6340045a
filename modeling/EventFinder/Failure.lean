import EventFinder.Pattern
import EventFinder.Report.Paint
import EventFinder.Tree.ScanError

/-!
# Failures

A failure ends the program. Its category decides the exit code, and besides its message it carries
what it happened with, what may help, and the errors that it comes from. `Failure.message` puts it
on one line, `Failure.explain` shows all of it to people; the errors behind it are shown on request
only.
-/

set_option autoImplicit false

namespace EventFinder

/-- The categories of failures. -/
inductive FailureCategory where
  /-- Something went wrong that is in no other category. -/
  | general
  /-- The program was called in a wrong way. -/
  | misuse
  /-- The file system is not as expected. -/
  | filesystem
  deriving DecidableEq, Repr

namespace FailureCategory

/-- What stands in front of the message of a failure. -/
def label : FailureCategory → Text
  | general => "Error".toList
  | misuse => "Usage Error".toList
  | filesystem => "File Error".toList

/-- The exit code of the program. -/
def exitCode : FailureCategory → Nat
  | general => 1
  | misuse => 2
  | filesystem => 4

/-- The paint of the label. -/
def paint : FailureCategory → Paint
  | misuse => .yellow
  | _ => .red

end FailureCategory

/-- Why the program ends without doing its work. -/
structure Failure where
  category : FailureCategory
  /-- What went wrong. -/
  summary : Text
  /-- Names and values that it happened with. -/
  context : List (Text × Text) := []
  /-- What may help, the most useful first. -/
  suggestions : List Text := []
  /-- The errors that the failure comes from, in words, each one the cause of the one before it. -/
  causes : List Text := []
  deriving DecidableEq, Repr

namespace Failure

/-- A failure in no special category. -/
def general (summary : Text) : Failure :=
  { category := .general, summary }

/-- What helps with every wrong call of the program. -/
def usageHint : Text := "Run 'finder --help' for usage information".toList

/-- What helps where a directory is not found. -/
def rootHint : Text := "Check that --rootdir points at an existing directory".toList

/-- What helps where a directory must not be read. -/
def permissionHints : List Text :=
  ["Check directory permissions".toList,
   "Exclude unreadable directories with --ignore_dirs".toList]

/-- What helps with a pattern that is none. -/
def placeholderHint : Text :=
  "Placeholders are %y %m %d %M %P %V %p, separated by literal text".toList

/-- A wrong call of the program. -/
def misuse (summary : Text) : Failure :=
  { category := .misuse, summary, suggestions := [usageHint] }

/-- A failure of the file system. What may help is told by the words of the message. -/
def filesystem (summary : Text) : Failure where
  category := .filesystem
  summary
  suggestions :=
    if Text.holds "not found".toList summary then [rootHint]
    else if Text.holds "Permission".toList summary || Text.holds "denied".toList summary then
      permissionHints
    else []

/-- The failure with one more name and value that it happened with. -/
def withContext (failure : Failure) (name value : Text) : Failure :=
  { failure with context := failure.context ++ [(name, value)] }

/-- The failure with one more suggestion. -/
def withSuggestion (failure : Failure) (suggestion : Text) : Failure :=
  { failure with suggestions := failure.suggestions ++ [suggestion] }

/-- The failure with the errors that it comes from, in place of those that it had. -/
def withCauses (failure : Failure) (causes : List Text) : Failure :=
  { failure with causes }

/-- A text that was given as a pattern and is none. -/
def ofPatternError (error : PatternError) (pattern : Text) : Failure :=
  let failure := misuse ("invalid --pattern value: ".toList ++ error.message)
  { failure with
    context := [("pattern".toList, pattern)]
    suggestions := placeholderHint :: failure.suggestions
    causes := [error.message] }

/-- The words of a scan error and of what the system says about it. -/
def scanCauses (error : ScanError) : List Text :=
  error.message :: (error.cause.map SystemError.text).toList

/-- A directory tree that cannot be scanned. -/
def ofScanError (error : ScanError) : Failure :=
  let summary := "Error scanning directories: ".toList ++ error.message
  let failure : Failure :=
    match error.kind with
    | .other => { category := .filesystem, summary }
    | _ => filesystem summary
  { failure with
    context := (error.path.map fun path => ("path".toList, Path.shown path)).toList
    causes := scanCauses error }

/-- Output that the system does not take. -/
def ofOutputError (error : SystemError) : Failure :=
  { general ("Failed to write output: ".toList ++ error.text) with causes := [error.text] }

/-- A chain of errors, the last one first, on one line. -/
def ofChain (errors : List Text) : Failure :=
  general (": ".toList.intercalate errors.reverse)

/-- The exit code of the program. -/
def exitCode (failure : Failure) : Nat :=
  failure.category.exitCode

/-- The failure on one line, with what it happened with in parentheses. -/
def message (failure : Failure) : Text :=
  failure.category.label ++ ": ".toList ++ failure.summary ++
    failure.context.flatMap fun (name, value) =>
      " (".toList ++ name ++ ": ".toList ++ value ++ [')']

/-- A section of an explanation, left out if it has no lines. -/
def titled (title : String) (lines : List Text) : Text :=
  if lines.isEmpty then []
  else Text.line [] ++ Text.line title.toList ++ lines.flatMap Text.line

/-- The causes with their numbers, counted from the given one on. -/
def numbered : Nat → List Text → List Text
  | _, [] => []
  | n, cause :: rest =>
    ("  ".toList ++ Text.ofNat n ++ ": ".toList ++ cause) :: numbered (n + 1) rest

/-- The failure for people, with the errors behind it if asked for. -/
def explain (painted causes : Bool) (failure : Failure) : Text :=
  Text.line (failure.category.paint.apply painted failure.category.label ++ ": ".toList ++
    failure.summary) ++
  titled "Context:" (failure.context.map fun (name, value) =>
    "  ".toList ++ Paint.bold.apply painted name ++ ": ".toList ++ value) ++
  (if causes then titled "Caused by:" (numbered 1 failure.causes) else []) ++
  titled "Suggestions:" (failure.suggestions.map fun suggestion => "  - ".toList ++ suggestion)

end Failure

end EventFinder
