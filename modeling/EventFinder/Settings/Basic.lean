import EventFinder.Report.Format
import EventFinder.Tree.Ignore

/-!
# Settings

The settings of the program in two sections: what to search for, and how to report it. Every
setting has a default. The command line changes settings by overrides: a value that is given takes
the place of the one before, and a switch turns a setting on but never off.
-/

set_option autoImplicit false

namespace EventFinder

/-- The settings of a search in a tree of images. -/
structure ImageSettings where
  /-- The directory below which candidates are searched for. -/
  root : Path := [dot]
  /-- The pattern of locations. With the empty pattern nothing is read. -/
  pattern : Text := []
  /-- Whether the name of the root belongs to the location. -/
  includeParent : Bool := false
  /-- The parts of text that make a directory ignored. -/
  ignoreDirs : List Text := []
  /-- Whether a number that is none makes the location fail. -/
  strictNumeric : Bool := false
  /-- Whether the date of an event is taken from its images. -/
  dateFromExif : Bool := false
  deriving DecidableEq, Repr

/-- The settings of reports. -/
structure OutputSettings where
  format : ReportFormat := .text
  /-- Whether reports may be painted. -/
  colorEnabled : Bool := true
  deriving DecidableEq, Repr

/-- All settings. -/
structure Settings where
  images : ImageSettings := {}
  output : OutputSettings := {}
  deriving DecidableEq, Repr

/-- Changes of settings by the command line. -/
structure Overrides where
  root : Option Path := none
  pattern : Option Text := none
  /-- The ignored parts of text, with commas between them. -/
  ignoreDirs : Option Text := none
  format : Option ReportFormat := none
  includeParent : Bool := false
  strictNumeric : Bool := false
  dateFromExif : Bool := false
  deriving DecidableEq, Repr

namespace Settings

/-- The settings changed by overrides. -/
def override (settings : Settings) (changes : Overrides) : Settings where
  images := {
    root := changes.root.getD settings.images.root
    pattern := changes.pattern.getD settings.images.pattern
    includeParent := settings.images.includeParent || changes.includeParent
    ignoreDirs := match changes.ignoreDirs with
      | some list => (IgnoreList.ofCommaList list).entries
      | none => settings.images.ignoreDirs
    strictNumeric := settings.images.strictNumeric || changes.strictNumeric
    dateFromExif := settings.images.dateFromExif || changes.dateFromExif }
  output := {
    format := changes.format.getD settings.output.format
    colorEnabled := settings.output.colorEnabled }

/-- The list of ignored directories. -/
def ignoreList (settings : Settings) : IgnoreList :=
  .ofEntries settings.images.ignoreDirs

/-- Without changes the settings stay as they are. -/
theorem override_empty (settings : Settings) : settings.override {} = settings := by
  simp [override]

end Settings

end EventFinder
