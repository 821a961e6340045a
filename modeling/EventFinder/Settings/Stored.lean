import EventFinder.Settings.Basic
import EventFinder.Settings.Value
import EventFinder.Text.Bytes

/-!
# Stored settings

Settings are stored as a table with a section for each of `ImageSettings` and `OutputSettings`. The
fields of a section may be missing, and then have their defaults; keys that no field has do not
matter. No value is converted: a number is no text, and a text is no truth value.
-/

set_option autoImplicit false

namespace EventFinder

namespace SettingValue

/-- What a field of a section says, or its default if the section does not have it. -/
def read? {α : Type} (kind : SettingValue → Option α) (key : String) (place : Nat) (default : α)
    (stored : SettingValue) : Option α :=
  match stored.field? key.toList place with
  | some value => kind value
  | none => some default

/-- The report format that the value names. -/
def format? (value : SettingValue) : Option ReportFormat :=
  value.text?.bind ReportFormat.ofName?

/-- The path that the value is. -/
def path? (value : SettingValue) : Option Path :=
  value.text?.map Text.toBytes

end SettingValue

/-- The image settings that a section says. -/
def ImageSettings.ofStored? (stored : SettingValue) : Option ImageSettings := do
  let default : ImageSettings := {}
  let root ← stored.read? SettingValue.path? "rootdir" 0 default.root
  let pattern ← stored.read? SettingValue.text? "pattern" 1 default.pattern
  let includeParent ← stored.read? SettingValue.flag? "include_parent" 2 default.includeParent
  let ignoreDirs ← stored.read? SettingValue.texts? "ignore_dirs" 3 default.ignoreDirs
  let strictNumeric ← stored.read? SettingValue.flag? "strict_numeric" 4 default.strictNumeric
  let dateFromExif ← stored.read? SettingValue.flag? "date_from_exif" 5 default.dateFromExif
  if stored.isSection then
    some { root, pattern, includeParent, ignoreDirs, strictNumeric, dateFromExif }
  else none

/-- The report settings that a section says. -/
def OutputSettings.ofStored? (stored : SettingValue) : Option OutputSettings := do
  let default : OutputSettings := {}
  let format ← stored.read? SettingValue.format? "format" 0 default.format
  let colorEnabled ← stored.read? SettingValue.flag? "color_enabled" 1 default.colorEnabled
  if stored.isSection then some { format, colorEnabled } else none

/-- The settings that a table says. -/
def Settings.ofTable? (table : SettingTable) : Option Settings := do
  let stored : SettingValue := .table table
  let images ← stored.read? ImageSettings.ofStored? "images" 0 {}
  let output ← stored.read? OutputSettings.ofStored? "output" 1 {}
  some { images, output }

end EventFinder
