import EventFinder.CommandLine.Grammar

/-!
# Usage errors

Why arguments are no request to the program.
-/

set_option autoImplicit false

namespace EventFinder

/-- Why arguments are no request to the program. -/
inductive UsageError where
  /-- The level has no such option, or no place for such a word. -/
  | unexpected (argument : Text)
  /-- A switch was given a value. -/
  | unexpectedValue (switch : Switch) (value : Text)
  /-- An option was given twice. -/
  | repeated (option : OptionName)
  /-- A parameter was given no value. -/
  | missingValue (parameter : Parameter)
  /-- A parameter was given a value that it does not take. -/
  | invalidValue (parameter : Parameter) (value : Text)
  /-- No shell has the name. -/
  | unknownShell (name : Text)
  /-- The shell was not named. -/
  | missingShell
  /-- No command has the name. -/
  | unknownCommand (name : Text)
  /-- A command of the level was not named. -/
  | missingCommand (level : Level)
  deriving DecidableEq, Repr

namespace UsageError

/-- A text between apostrophes. -/
def quoted (text : Text) : Text :=
  '\'' :: text ++ ['\'']

/-- What is wrong, in words. -/
def reason : UsageError → Text
  | unexpected argument => "unexpected argument ".toList ++ quoted argument ++ " found".toList
  | unexpectedValue switch value =>
    "unexpected value ".toList ++ quoted value ++ " for ".toList ++
      quoted (OptionName.switch switch).written
  | repeated option =>
    "the argument ".toList ++ quoted option.written ++ " cannot be used multiple times".toList
  | missingValue parameter =>
    "a value is required for ".toList ++ quoted (OptionName.parameter parameter).written ++
      " but none was supplied".toList
  | invalidValue parameter value =>
    "invalid value ".toList ++ quoted value ++ " for ".toList ++
      quoted (OptionName.parameter parameter).written
  | unknownShell name => "invalid value ".toList ++ quoted name ++ " for '<SHELL>'".toList
  | missingShell => "the following required arguments were not provided: <SHELL>".toList
  | unknownCommand name => "unrecognized subcommand ".toList ++ quoted name
  | missingCommand level =>
    quoted level.call ++ " requires a subcommand but one was not provided".toList

/-- The error for people. -/
def message (error : UsageError) : Text :=
  Text.line ("error: ".toList ++ error.reason) ++ Text.line [] ++
    Text.line "For more information, try '--help'.".toList

/-- The exit code of the program. -/
def exitCode : Nat := 2

end UsageError

end EventFinder
