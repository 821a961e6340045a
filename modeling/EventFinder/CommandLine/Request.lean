import EventFinder.CommandLine.UsageError
import EventFinder.Search

/-!
# Requests

What the program is asked to do. Arguments are read from left to right. A command leads to the
options and commands of its own level; an option is given at most once on each level. Letters may
stand together behind one dash, and the value of a parameter follows its letter at once, or after
an equals sign, or as the next argument. The next argument is a value only if it does not look like
an option, for which one dash alone is too short.

The first thing that is wrong refuses the arguments, and the first request for help or for the
version is granted, whichever comes first. Behind two dashes no argument is an option.
-/

set_option autoImplicit false

namespace EventFinder

/-- What a command does. -/
inductive Task where
  /-- Searches images. -/
  | search (flags : RunFlags) (changes : Overrides)
  /-- Tells with which flags a source is run on. -/
  | tellFlags (source : Source) (flags : RunFlags)
  | showSettings
  | showSettingsPath
  | complete (shell : Text)
  deriving DecidableEq, Repr

/-- What the program is asked for. -/
inductive Request where
  | help (level : Level)
  | version
  /-- A task, with debugging on or off. -/
  | run (debug : Bool) (task : Task)
  deriving DecidableEq, Repr

/-- What has been read of the arguments. -/
structure Selection where
  /-- The level of the last command. -/
  level : Level := .program
  /-- The options that were given on this level. -/
  given : List OptionName := []
  /-- The flags of the run. -/
  flags : RunFlags := {}
  /-- The changes of settings. -/
  changes : Overrides := {}
  /-- The shell that completions are asked for. -/
  shell : Option Text := none

/-- Where the reading of arguments stands behind an option. -/
inductive Progress where
  /-- The next argument is read for itself. -/
  | ready (selection : Selection)
  /-- The next argument is the value of a parameter. -/
  | awaiting (selection : Selection) (parameter : Parameter)
  /-- Nothing more is read. -/
  | finished (request : Request)

namespace Selection

/-- Notes that an option is given, for the first time on this level. -/
def note (selection : Selection) (option : OptionName) : Except UsageError Selection :=
  if option ∈ selection.given then .error (.repeated option)
  else .ok { selection with given := option :: selection.given }

/-- The selection with a switch on. -/
def turnOn (selection : Selection) : Switch → Selection
  | .debug => { selection with flags := { selection.flags with debug := true } }
  | .verbose => { selection with flags := { selection.flags with verbose := true } }
  | .dryRun => { selection with flags := { selection.flags with dryRun := true } }
  | .includeParent =>
    { selection with changes := { selection.changes with includeParent := true } }
  | .dateFromExif => { selection with changes := { selection.changes with dateFromExif := true } }
  | .strictNumeric =>
    { selection with changes := { selection.changes with strictNumeric := true } }
  | .help | .version => selection

/-- Reads a switch. -/
def readSwitch (selection : Selection) (switch : Switch) : Except UsageError Progress :=
  match switch with
  | .help => .ok (.finished (.help selection.level))
  | .version => .ok (.finished .version)
  | switch => (selection.note (.switch switch)).map fun selection =>
      .ready (selection.turnOn switch)

/-- The changes with the value of a parameter. The path of the root is not empty, and the format is
one of the known ones. -/
def change? (changes : Overrides) (parameter : Parameter) (value : Text) : Option Overrides :=
  match parameter with
  | .root => if value = [] then none else some { changes with root := some (Text.toBytes value) }
  | .pattern => some { changes with pattern := some value }
  | .ignoreDirs => some { changes with ignoreDirs := some value }
  | .format =>
    (ReportFormat.ofName? value).map fun format => { changes with format := some format }

/-- Reads the value of a parameter. -/
def readValue (selection : Selection) (parameter : Parameter) (value : Text) :
    Except UsageError Selection :=
  match change? selection.changes parameter value with
  | some changes => ({ selection with changes }).note (.parameter parameter)
  | none => .error (.invalidValue parameter value)

/-- The text without an equals sign in front. -/
def withoutEquals : Text → Text
  | '=' :: rest => rest
  | text => text

/-- Reads the letters behind a single dash. -/
def readLetters (selection : Selection) : Text → Except UsageError Progress
  | [] => .ok (.ready selection)
  | letter :: rest =>
    match selection.level.lettered? letter with
    | some (.switch switch) =>
      match selection.readSwitch switch with
      | .ok (.ready selection) => readLetters selection rest
      | other => other
    | some (.parameter parameter) =>
      if rest = [] then .ok (.awaiting selection parameter)
      else (selection.readValue parameter (withoutEquals rest)).map .ready
    | none => .error (.unexpected ['-', letter])

/-- Reads a long name, behind its dashes, with the value that is attached to it. -/
def readName (selection : Selection) (name : Text) (value : Option Text) :
    Except UsageError Progress :=
  match selection.level.named? name, value with
  | some (.switch switch), none => selection.readSwitch switch
  | some (.switch switch), some value => .error (.unexpectedValue switch value)
  | some (.parameter parameter), none => .ok (.awaiting selection parameter)
  | some (.parameter parameter), some value => (selection.readValue parameter value).map .ready
  | none, _ => .error (.unexpected ("--".toList ++ name))

/-- Reads a word that is no command. Only completions take one: the name of the shell. -/
def readWord (selection : Selection) (word : Text) : Except UsageError Selection :=
  if selection.level = .completions ∧ selection.shell = none then
    if word ∈ shells then .ok { selection with shell := some word } else .error (.unknownShell word)
  else .error (.unexpected word)

/-- Reads the words behind two dashes. -/
def readWords (selection : Selection) : List Text → Except UsageError Selection
  | [] => .ok selection
  | word :: rest => (selection.readWord word).bind fun selection => readWords selection rest

/-- The request of all arguments together. -/
def request (selection : Selection) : Except UsageError Request :=
  let flags := selection.flags
  let run (task : Task) : Except UsageError Request := .ok (.run flags.debug task)
  match selection.level with
  | .program => .error (.missingCommand .program)
  | .config => .error (.missingCommand .config)
  | .images => run (.search flags selection.changes)
  | .tickets => run (.tellFlags .tickets flags)
  | .info => run (.tellFlags .info flags)
  | .configShow => run .showSettings
  | .configPath => run .showSettingsPath
  | .completions =>
    match selection.shell with
    | some shell => run (.complete shell)
    | none => .error .missingShell

end Selection

/-- The name of the command that asks for help with the commands named behind it. -/
def helpCommand : Text := "help".toList

/-- The level that help is asked for by the names of commands. Help has help of its own, but no
commands. -/
def helpLevel : Level → List Text → Except UsageError Level
  | level, [] => .ok level
  | level, name :: rest =>
    match level.commands.lookup name with
    | some command => helpLevel command rest
    | none =>
      if name = helpCommand ∧ level.commands ≠ [] ∧ rest = [] then .ok level
      else .error (.unknownCommand name)

/-- The forms of an argument. -/
inductive ArgumentForm where
  /-- Two dashes alone. -/
  | terminator
  /-- Two dashes and a long name, with the value behind an equals sign. -/
  | name (name : Text) (value : Option Text)
  /-- One dash and letters. -/
  | letters (letters : Text)
  /-- Everything else. -/
  | word (word : Text)

/-- The name and the value of an option with a long name, behind its dashes. -/
def splitName (text : Text) : ArgumentForm :=
  .name (text.takeWhile (· ≠ '='))
    (match text.dropWhile (· ≠ '=') with
      | [] => none
      | _ :: value => some value)

/-- The form of an argument. -/
def argumentForm : Text → ArgumentForm
  | ['-', '-'] => .terminator
  | '-' :: '-' :: rest => splitName rest
  | ['-'] => .word ['-']
  | '-' :: rest => .letters rest
  | word => .word word

/-- Reads a list of arguments. `awaited` is the parameter whose value comes first, if one does. -/
def readArguments (selection : Selection) (awaited : Option Parameter) :
    List Text → Except UsageError Request
  | [] =>
    match awaited with
    | some parameter => .error (.missingValue parameter)
    | none => selection.request
  | argument :: rest =>
    let goOn (progress : Progress) : Except UsageError Request :=
      match progress with
      | .ready selection => readArguments selection none rest
      | .awaiting selection parameter => readArguments selection (some parameter) rest
      | .finished request => .ok request
    match awaited, argumentForm argument with
    | some parameter, .word value =>
      (selection.readValue parameter value).bind fun selection => goOn (.ready selection)
    | some parameter, _ => .error (.missingValue parameter)
    | none, .terminator => (selection.readWords rest).bind Selection.request
    | none, .name name value => (selection.readName name value).bind goOn
    | none, .letters letters => (selection.readLetters letters).bind goOn
    | none, .word word =>
      match selection.level.commands.lookup word with
      | some command => goOn (.ready { selection with level := command, given := [] })
      | none =>
        if word = helpCommand ∧ selection.level.commands ≠ [] then
          (helpLevel selection.level rest).map .help
        else (selection.readWord word).bind fun selection => goOn (.ready selection)

/-- The request that the arguments of the program make. -/
def Request.ofArguments (arguments : List Text) : Except UsageError Request :=
  readArguments {} none arguments

end EventFinder
