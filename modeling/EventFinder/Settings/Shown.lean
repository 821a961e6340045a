import EventFinder.Settings.Basic
import EventFinder.Text.Bytes
import EventFinder.Toml.Written

/-!
# Shown settings

Settings are shown as the document that a settings file could hold: a section for the search and one
for the reports, and every field in a section on a line of its own.
-/

set_option autoImplicit false

namespace EventFinder

namespace Settings

/-- The document that says the settings. There is none if the path of the root is not text. -/
def shown? (settings : Settings) : Option Text :=
  let images := settings.images
  let output := settings.output
  (Bytes.toText? images.root).map fun root =>
    Toml.sectionHeader "images" ++
    Toml.assignment "rootdir" (Toml.ofText root) ++
    Toml.assignment "pattern" (Toml.ofText images.pattern) ++
    Toml.assignment "include_parent" (Text.ofBool images.includeParent) ++
    Toml.assignment "ignore_dirs" (Toml.ofTexts images.ignoreDirs) ++
    Toml.assignment "strict_numeric" (Text.ofBool images.strictNumeric) ++
    Toml.assignment "date_from_exif" (Text.ofBool images.dateFromExif) ++
    Text.line [] ++
    Toml.sectionHeader "output" ++
    Toml.assignment "format" (Toml.ofText output.format.name) ++
    Toml.assignment "color_enabled" (Text.ofBool output.colorEnabled)

end Settings

end EventFinder
