import EventFinder.Settings.Environment
import EventFinder.Settings.Stored
import EventFinder.Toml.Document
import EventFinder.Tree.Lookup

/-!
# Loading settings

Settings come in layers: the environment over the settings file over the defaults. A layer changes
the settings that it names and leaves the others as they are below it.
-/

set_option autoImplicit false

namespace EventFinder

namespace Settings

/-- The table that a settings file holds. -/
def fileTable? (content : Bytes) : Option SettingTable :=
  content.toText?.bind Toml.read?

/-- The settings that a settings file, if there is one, and the environment say. -/
def load? (file : Option Bytes) (environment : Environment) : Option Settings := do
  let stored ←
    match file with
    | some content => fileTable? content
    | none => some []
  ofTable? (SettingValue.overlayTable stored environment.table)

/-- The names of the settings file below the directory for settings. -/
def fileNames (directory : Path) : Path :=
  (directory.join (Text.toBytes "gigcal".toList)).join (Text.toBytes "config.toml".toList)

/-- What a variable says, if it is there and not empty. -/
def nonempty? (environment : Environment) (name : String) : Option Text :=
  (environment.lookup name.toList).filter (· ≠ [])

/-- The path of the settings file. -/
def filePath (environment : Environment) : Path :=
  match nonempty? environment "XDG_CONFIG_HOME" with
  | some directory => fileNames (Text.toBytes directory)
  | none =>
    match nonempty? environment "HOME" with
    | some home => fileNames (Path.join (Text.toBytes home) (Text.toBytes ".config".toList))
    | none => fileNames [dot]

end Settings

end EventFinder
