import EventFinder.CommandLine.Help
import EventFinder.CommandLine.Request
import EventFinder.Settings.Load
import EventFinder.Settings.Shown

/-!
# The program

The whole program as a function: from a file system, the variables of the environment and the
arguments to an exit code and the text on the two streams. Nothing is painted, as the streams of a
program that is a function are no terminal.
-/

set_option autoImplicit false

namespace EventFinder

/-- What a run of the program leaves. -/
structure ProgramResult where
  exitCode : Nat := 0
  streams : Streams := {}
  deriving DecidableEq, Repr

namespace ProgramResult

/-- A run that ended well with the given output. -/
def ofOutput (output : Text) : ProgramResult :=
  { streams := { output } }

/-- The end of a run by a failure, behind what was told before. -/
def ofFailure (debug : Bool) (told : Streams) (failure : Failure) : ProgramResult where
  exitCode := failure.exitCode
  streams := told ++ { diagnostics := failure.explain false debug }

/-- The result behind text that was told before. -/
def after (told : Streams) (result : ProgramResult) : ProgramResult :=
  { result with streams := told ++ result.streams }

end ProgramResult

/-- Why there are no settings to go by. -/
def settingsFailure : Failure :=
  .general "Failed to load configuration".toList

/-- The settings that a run goes by. Where a directory stands in the place of the settings file, a
directory above the current one may hold the file. -/
def loadSettings (files : FileSystem) (environment : Environment) : Option Settings :=
  Settings.load? (files.nearestContent? (Settings.filePath environment)) environment

/-- The search that settings ask for, changed by the command line. -/
def plannedSearch (files : FileSystem) (environment : Environment) (flags : RunFlags)
    (changes : Overrides) : Except Failure Search :=
  match loadSettings files environment with
  | some settings => Search.ofSettings (settings.override changes) flags false
  | none =>
    .error (settingsFailure.withContext "config".toList
      (Path.shown (Settings.filePath environment)))

/-- Runs a search with the settings changed by the command line. -/
def runSearch (files : FileSystem) (environment : Environment) (flags : RunFlags)
    (changes : Overrides) : ProgramResult :=
  match plannedSearch files environment flags changes with
  | .error failure => .ofFailure flags.debug {} failure
  | .ok search =>
    let found := search.run files
    match found.result with
    | .ok _ => { streams := found.streams }
    | .error failure => .ofFailure flags.debug found.streams failure

/-- Does a task. -/
def Task.run (files : FileSystem) (environment : Environment) (debug : Bool) :
    Task → ProgramResult
  | search flags changes => runSearch files environment flags changes
  | tellFlags source flags => .ofOutput (flags.configuration source)
  | showSettings =>
    match (loadSettings files environment).bind Settings.shown? with
    | some document => .ofOutput document
    | none => .ofFailure debug {} settingsFailure
  | showSettingsPath => .ofOutput (Text.line (Path.shown (Settings.filePath environment)))
  | complete _ => .ofOutput completionWords

/-- The search that arguments ask for, if they ask for one. -/
def requestedSearch? (files : FileSystem) (environment : Environment) (arguments : List Text) :
    Option Search :=
  match Request.ofArguments arguments with
  | .ok (.run _ (.search flags changes)) =>
    (plannedSearch files environment flags changes).toOption
  | _ => none

/-- What is told first where debugging is on. -/
def debugNote (debug : Bool) : Streams :=
  if debug then { diagnostics := Text.line "Debug logging enabled".toList } else {}

/-- Runs the program. -/
def runProgram (files : FileSystem) (environment : Environment) (arguments : List Text) :
    ProgramResult :=
  match Request.ofArguments arguments with
  | .error e => { exitCode := UsageError.exitCode, streams := { diagnostics := e.message } }
  | .ok (.help level) => .ofOutput level.help
  | .ok .version => .ofOutput versionLine
  | .ok (.run debug task) => (task.run files environment debug).after (debugNote debug)

end EventFinder
