import EventFinder.Tree.Path

/-!
# Ignored directories

A directory is ignored if the text of its path contains one of the entries of a list. Entries are
parts of text, not names: an entry may reach over a slash or match in the middle of a name. An empty
entry would match every path, so a list holds none.
-/

set_option autoImplicit false

namespace EventFinder

/-- The texts that the path of an ignored directory contains. -/
structure IgnoreList where
  entries : List Text
  /-- No entry is empty. -/
  entries_ne_nil : ∀ entry ∈ entries, entry ≠ []

namespace IgnoreList

/-- The list of the given entries, the empty ones left out. -/
def ofEntries (entries : List Text) : IgnoreList where
  entries := entries.filter (· ≠ [])
  entries_ne_nil := by simp

/-- The list that is written with commas between its entries. -/
def ofCommaList (text : Text) : IgnoreList :=
  ofEntries (text.splitOn ',')

/-- The list that ignores nothing. -/
def none : IgnoreList :=
  ofEntries []

/-- The first entry that the text of a path contains. -/
def firstMatch? (ignore : IgnoreList) (path : Path) : Option Text :=
  ignore.entries.find? fun entry => Text.holds entry (Path.shown path)

/-- Whether the text of a path contains an entry. -/
def ignores (ignore : IgnoreList) (path : Path) : Bool :=
  (ignore.firstMatch? path).isSome

end IgnoreList

end EventFinder
