import EventFinder.CommandLine.Grammar

/-!
# Help

The texts that the program writes about itself: the help of each level, the version, and the words
that a shell can complete.
-/

set_option autoImplicit false

namespace EventFinder

/-- Two columns of text, the first one of the given width at least. -/
def columns (width : Nat) (rows : List (Text × Text)) : Text :=
  rows.flatMap fun (left, right) =>
    let gap := List.replicate (width - left.length) ' '
    Text.line ("  ".toList ++ left ++ gap ++ "  ".toList ++ right)

/-- An option as the help shows it: its letter, if it has one, and its long name. -/
def OptionName.shown (option : OptionName) : Text :=
  (match option.letter? with
    | some letter => ['-', letter, ',', ' ']
    | none => "    ".toList) ++ option.written

namespace Level

/-- What stands behind the call of the level besides options. -/
def operands (level : Level) : Text :=
  if level = completions then " <SHELL>".toList
  else if level.commands = [] then []
  else " <COMMAND>".toList

/-- The commands of the level, with what they are for. -/
def commandHelp (level : Level) : Text :=
  if level.commands = [] then []
  else
    Text.line [] ++ Text.line "Commands:".toList ++
      columns 11 (level.commands.map fun (name, command) => (name, command.description))

/-- The help of the level. -/
def help (level : Level) : Text :=
  Text.line level.description ++ Text.line [] ++
  Text.line ("Usage: ".toList ++ level.call ++ " [OPTIONS]".toList ++ level.operands) ++
  level.commandHelp ++
  Text.line [] ++ Text.line "Options:".toList ++
  columns 26 (level.options.map fun option => (option.shown, option.description))

/-- The words that can follow the call of the level. -/
def words (level : Level) : List Text :=
  level.commands.map Prod.fst ++ level.options.map (fun option => "--".toList ++ option.name)

/-- Every level. -/
def all : List Level :=
  [program, images, tickets, info, config, configShow, configPath, completions]

end Level

/-- The name and the version of the program. -/
def versionLine : Text :=
  Text.line "finder 0.1.0-alpha".toList

/-- The words to complete: a line for each level, with its call and what can follow it. -/
def completionWords : Text :=
  Level.all.flatMap fun level =>
    Text.line (level.call ++ ": ".toList ++ [' '].intercalate level.words)

end EventFinder
