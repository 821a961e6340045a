import EventFinder.Text

/-!
# The grammar of the command line

The program has commands, and some commands have commands of their own. Every level of commands
accepts some options: switches, which are given or not, and parameters, which take a value. An
option has a long name and may have a letter.
-/

set_option autoImplicit false

namespace EventFinder

/-- The options without a value. -/
inductive Switch where
  | debug
  | verbose
  | dryRun
  | includeParent
  | dateFromExif
  | strictNumeric
  | help
  | version
  deriving DecidableEq, Repr

/-- The options with a value. -/
inductive Parameter where
  | root
  | pattern
  | ignoreDirs
  | format
  deriving DecidableEq, Repr

/-- An option of either kind. -/
inductive OptionName where
  | switch (switch : Switch)
  | parameter (parameter : Parameter)
  deriving DecidableEq, Repr

namespace Switch

/-- The long name of the switch. -/
def name : Switch → Text
  | debug => "debug".toList
  | verbose => "verbose".toList
  | dryRun => "dryrun".toList
  | includeParent => "include_parent".toList
  | dateFromExif => "date_from_exif".toList
  | strictNumeric => "strict_numeric".toList
  | help => "help".toList
  | version => "version".toList

/-- The letter of the switch. -/
def letter? : Switch → Option Char
  | debug => some 'd'
  | verbose => some 'v'
  | help => some 'h'
  | version => some 'V'
  | _ => none

/-- What the switch does. -/
def description : Switch → Text
  | debug => "Enable debug logging and show parse errors".toList
  | verbose => "Display verbose output".toList
  | dryRun => "Make no changes, only report what would have been changed".toList
  | includeParent => "Use the root directory's own name as the first path component".toList
  | dateFromExif => "Take the event date from EXIF data".toList
  | strictNumeric => "Fail on malformed numbers instead of reading them as zero".toList
  | help => "Print help".toList
  | version => "Print version".toList

end Switch

namespace Parameter

/-- The long name of the parameter. -/
def name : Parameter → Text
  | root => "rootdir".toList
  | pattern => "pattern".toList
  | ignoreDirs => "ignore_dirs".toList
  | format => "format".toList

/-- The letter of the parameter. -/
def letter? : Parameter → Option Char
  | format => some 'f'
  | _ => none

/-- What the value of the parameter is. -/
def valueName : Parameter → Text
  | root => "DIR".toList
  | pattern => "PATTERN".toList
  | ignoreDirs => "LIST".toList
  | format => "FORMAT".toList

/-- What the parameter does. -/
def description : Parameter → Text
  | root => "Root of the directories to scan for event metadata".toList
  | pattern =>
    "Pattern extracting date, performers, venue and promoters from directory paths".toList
  | ignoreDirs =>
    "Comma separated list of strings; directories whose path contains one are skipped".toList
  | format => "Output format: text, json or csv".toList

end Parameter

namespace OptionName

/-- The long name of the option. -/
def name : OptionName → Text
  | switch s => s.name
  | parameter p => p.name

/-- The letter of the option. -/
def letter? : OptionName → Option Char
  | switch s => s.letter?
  | parameter p => p.letter?

/-- What the option does. -/
def description : OptionName → Text
  | switch s => s.description
  | parameter p => p.description

/-- The option as it is written with its long name. -/
def written : OptionName → Text
  | switch s => "--".toList ++ s.name
  | parameter p => "--".toList ++ p.name ++ " <".toList ++ p.valueName ++ ['>']

end OptionName

/-- The program and its commands. -/
inductive Level where
  | program
  | images
  | tickets
  | info
  | config
  | configShow
  | configPath
  | completions
  deriving DecidableEq, Repr

namespace Level

/-- The commands of a level with their names. -/
def commands : Level → List (Text × Level)
  | program =>
    [("images".toList, images), ("tickets".toList, tickets), ("info".toList, info),
     ("config".toList, config), ("completions".toList, completions)]
  | config => [("show".toList, configShow), ("path".toList, configPath)]
  | _ => []

/-- The words that call the level. -/
def call : Level → Text
  | program => "finder".toList
  | images => "finder images".toList
  | tickets => "finder tickets".toList
  | info => "finder info".toList
  | config => "finder config".toList
  | configShow => "finder config show".toList
  | configPath => "finder config path".toList
  | completions => "finder completions".toList

/-- What the level is for. -/
def description : Level → Text
  | program => "Gig Calendar - find event metadata in photo archives".toList
  | images => "Extract event metadata from the directory names of a photo tree".toList
  | tickets => "Event metadata from tickets".toList
  | info => "Event metadata from info files".toList
  | config => "Inspect configuration".toList
  | configShow => "Print the effective configuration".toList
  | configPath => "Print the configuration file location".toList
  | completions => "Generate shell completions".toList

/-- The switches of every command that runs on a source. -/
def runSwitches : List OptionName :=
  [.switch .dryRun, .switch .verbose]

/-- The options that a level has besides those of every level. -/
def ownOptions : Level → List OptionName
  | images =>
    runSwitches ++
    [.parameter .root, .parameter .pattern, .switch .includeParent, .parameter .ignoreDirs,
     .switch .dateFromExif, .switch .strictNumeric, .parameter .format]
  | tickets | info => runSwitches
  | _ => []

/-- The options of a level. The version is asked of the program only. -/
def options (level : Level) : List OptionName :=
  level.ownOptions ++ [.switch .debug, .switch .help] ++
    if level = program then [.switch .version] else []

/-- The option of a level with the given long name. -/
def named? (level : Level) (name : Text) : Option OptionName :=
  level.options.find? fun o => o.name = name

/-- The option of a level with the given letter. -/
def lettered? (level : Level) (letter : Char) : Option OptionName :=
  level.options.find? fun o => o.letter? = some letter

end Level

/-- The shells that completions are made for. -/
def shells : List Text :=
  ["bash".toList, "elvish".toList, "fish".toList, "powershell".toList, "zsh".toList]

end EventFinder
