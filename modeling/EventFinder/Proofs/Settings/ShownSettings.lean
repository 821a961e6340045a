import EventFinder.Proofs.Settings.Variables
import EventFinder.Proofs.Text.Decoding
import EventFinder.Proofs.Toml.Documents
import EventFinder.Settings.Load
import EventFinder.Settings.Shown

/-!
# Shown settings are loaded back

The document that settings are shown as is two sections of fields (`shown?_eq`), and the settings of
both sections are read back from them (`ofStored?_imageSection`, `ofStored?_outputSection`). So a
settings file with this document has the same settings again, as long as no variable holds a
setting, and they are shown as the same document (`load?_shown`).
-/

set_option autoImplicit false

namespace EventFinder

namespace Settings

/-- The section of the image settings, with the text that their root is. -/
def imageSection (root : Text) (images : ImageSettings) : Toml.Section where
  name := "images"
  fields := [
    { key := "rootdir", text := Toml.ofText root, value := .text root
      isBareKey := by decide, standsFor := Toml.standsFor_ofText _ },
    { key := "pattern", text := Toml.ofText images.pattern, value := .text images.pattern
      isBareKey := by decide, standsFor := Toml.standsFor_ofText _ },
    { key := "include_parent", text := Text.ofBool images.includeParent
      value := .flag images.includeParent
      isBareKey := by decide, standsFor := Toml.standsFor_ofBool _ },
    { key := "ignore_dirs", text := Toml.ofTexts images.ignoreDirs
      value := .list (images.ignoreDirs.map .text)
      isBareKey := by decide, standsFor := Toml.standsFor_ofTexts _ },
    { key := "strict_numeric", text := Text.ofBool images.strictNumeric
      value := .flag images.strictNumeric
      isBareKey := by decide, standsFor := Toml.standsFor_ofBool _ },
    { key := "date_from_exif", text := Text.ofBool images.dateFromExif
      value := .flag images.dateFromExif
      isBareKey := by decide, standsFor := Toml.standsFor_ofBool _ }]
  isBareKey := by decide
  distinct := show (SettingValue.reservedKey :: SettingValue.valueKey :: ["rootdir".toList,
    "pattern".toList, "include_parent".toList, "ignore_dirs".toList, "strict_numeric".toList,
    "date_from_exif".toList]).Nodup by decide

/-- The section of the report settings. -/
def outputSection (output : OutputSettings) : Toml.Section where
  name := "output"
  fields := [
    { key := "format", text := Toml.ofText output.format.name, value := .text output.format.name
      isBareKey := by decide, standsFor := Toml.standsFor_ofText _ },
    { key := "color_enabled", text := Text.ofBool output.colorEnabled
      value := .flag output.colorEnabled
      isBareKey := by decide, standsFor := Toml.standsFor_ofBool _ }]
  isBareKey := by decide
  distinct := show (SettingValue.reservedKey :: SettingValue.valueKey :: ["format".toList,
    "color_enabled".toList]).Nodup by decide

/-- Settings whose root is text are shown as a document of both their sections. -/
theorem shown?_eq {settings : Settings} {root : Text}
    (hroot : settings.images.root = root.toBytes) :
    settings.shown? = some (Toml.document (imageSection root settings.images)
      [outputSection settings.output]) := by
  rw [shown?, hroot, Bytes.toText?_toBytes, Option.map_some]
  simp [Toml.document, Toml.Section.text, imageSection, outputSection, Toml.Field.line, Text.line]

/-- A list of texts is read back. -/
theorem texts?_map_text (items : List Text) :
    SettingValue.texts? (.list (items.map .text)) = some items := by
  rw [SettingValue.texts?]
  induction items with
  | nil => rfl
  | cons item items ih =>
    rw [List.map_cons, List.mapM_cons, ih]
    rfl

/-- A format is read back from its name. -/
theorem format?_name (format : ReportFormat) :
    SettingValue.format? (.text format.name) = some format :=
  ReportFormat.ofName?_name format

/-- What the shown section of the images says of each field. -/
theorem imageSection_setting (root : Text) (images : ImageSettings) :
    (imageSection root images).setting = ("images".toList, .table [
      ("rootdir".toList, .text root),
      ("pattern".toList, .text images.pattern),
      ("include_parent".toList, .flag images.includeParent),
      ("ignore_dirs".toList, .list (images.ignoreDirs.map .text)),
      ("strict_numeric".toList, .flag images.strictNumeric),
      ("date_from_exif".toList, .flag images.dateFromExif)]) :=
  rfl

/-- What the shown section of the output says of each field. -/
theorem outputSection_setting (output : OutputSettings) :
    (outputSection output).setting = ("output".toList, .table [
      ("format".toList, .text output.format.name),
      ("color_enabled".toList, .flag output.colorEnabled)]) :=
  rfl

/-- Every field of the image settings is read from its line. -/
theorem ofStored?_imageSection {images : ImageSettings} {root : Text}
    (hroot : images.root = root.toBytes) :
    ImageSettings.ofStored? (imageSection root images).setting.2 = some images := by
  rw [imageSection_setting]
  show (SettingValue.texts? (.list (images.ignoreDirs.map .text))).bind (fun ignoreDirs =>
    some { images with root := root.toBytes, ignoreDirs }) = some images
  rw [texts?_map_text, Option.bind_some, ← hroot]

/-- The shown section of the output is read back. -/
theorem ofStored?_outputSection (output : OutputSettings) :
    OutputSettings.ofStored? (outputSection output).setting.2 = some output := by
  rw [outputSection_setting]
  show (SettingValue.format? (.text output.format.name)).bind (fun format =>
    some { output with format }) = some output
  rw [format?_name, Option.bind_some]

/-- Settings are read from a table of both their sections. -/
theorem ofTable?_of_sections {imagesValue outputValue : SettingValue} {settings : Settings}
    (himages : ImageSettings.ofStored? imagesValue = some settings.images)
    (houtput : OutputSettings.ofStored? outputValue = some settings.output) :
    ofTable? [("images".toList, imagesValue), ("output".toList, outputValue)] = some settings := by
  show (ImageSettings.ofStored? imagesValue).bind (fun images =>
    (OutputSettings.ofStored? outputValue).bind fun output => some { images, output }) =
      some settings
  rw [himages, Option.bind_some, houtput, Option.bind_some]

/-- The document of the two sections is read as their table. -/
theorem fileTable?_document (root : Text) (settings : Settings) :
    fileTable? (Toml.document (imageSection root settings.images)
      [outputSection settings.output]).toBytes =
        some [(imageSection root settings.images).setting,
          (outputSection settings.output).setting] := by
  have hnames : ([imageSection root settings.images, outputSection settings.output].map
      fun part => part.name.toList).Nodup :=
    show ["images".toList, "output".toList].Nodup by decide
  rw [fileTable?, Bytes.toText?_toBytes, Option.bind_some, Toml.read?_document hnames]
  rfl

/-- The settings of a file are loaded under those of the environment. -/
theorem load?_some (content : Bytes) (environment : Environment) :
    load? (some content) environment = (fileTable? content).bind fun stored =>
      ofTable? (SettingValue.overlayTable stored environment.table) :=
  rfl

/-- Settings whose root is text are shown as a document. A settings file that holds this document is
loaded as the same settings where no variable holds a setting, and they are shown as the same
document again. Only variables whose names start with `Environment.lead` hold settings. -/
theorem load?_shown {settings : Settings} {root : Text} {environment : Environment}
    (hroot : settings.images.root = root.toBytes)
    (henvironment : ∀ entry ∈ environment, Environment.settingPath? entry.1 = none) :
    ∃ document, settings.shown? = some document ∧
      load? (some document.toBytes) environment = some settings ∧
      (load? (some document.toBytes) environment).bind shown? = some document := by
  have hshown := shown?_eq hroot
  have hload : load? (some (Toml.document (imageSection root settings.images)
      [outputSection settings.output]).toBytes) environment = some settings := by
    rw [load?_some, fileTable?_document, Option.bind_some, Environment.table_eq_nil henvironment,
      SettingValue.overlayTable]
    exact ofTable?_of_sections (ofStored?_imageSection hroot) (ofStored?_outputSection _)
  refine ⟨_, hshown, hload, ?_⟩
  rw [hload, Option.bind_some, hshown]

/-- The texts need all four forms of strings. One of them has several lines with quotes in a row,
and one is empty. -/
theorem load?_shown_of_four_forms :
    let settings : Settings := {
      images := {
        root := Text.toBytes "/srv/\"q\"\\x".toList
        pattern := "%V\t'\"\\".toList
        ignoreDirs := ["a\"\"\"\n'''b\\".toList, [], "c'''\r".toList]
        dateFromExif := true }
      output := { format := .csv } }
    let environment : Environment := [("HOME".toList, "/home/a".toList)]
    settings.images.root = Text.toBytes "/srv/\"q\"\\x".toList ∧
    (∀ entry ∈ environment, Environment.settingPath? entry.1 = none) ∧
    ∃ document, settings.shown? = some document ∧
      load? (some document.toBytes) environment = some settings ∧
      (load? (some document.toBytes) environment).bind shown? = some document := by
  intro settings environment
  have hroot : settings.images.root = Text.toBytes "/srv/\"q\"\\x".toList := rfl
  have henvironment : ∀ entry ∈ environment, Environment.settingPath? entry.1 = none := by
    decide +kernel
  exact ⟨hroot, henvironment, load?_shown hroot henvironment⟩

end Settings

end EventFinder
