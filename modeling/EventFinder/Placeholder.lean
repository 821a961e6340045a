import EventFinder.Text

/-!
# Placeholders

A placeholder names one field of an event in a location pattern. It is written as a percent sign and
one letter, its code. The two list fields take as much text as they can, all other fields as little.
-/

set_option autoImplicit false

namespace EventFinder

/-- The character that starts a placeholder. -/
def placeholderMark : Char := '%'

/-- The fields that a pattern can capture. -/
inductive Placeholder where
  /-- The year as a number. -/
  | year
  /-- The month as a number. -/
  | month
  /-- The day of the month as a number. -/
  | day
  /-- The English name of the month. -/
  | monthName
  /-- The performers, separated by commas. -/
  | performers
  /-- The name of the venue. -/
  | venue
  /-- The promoters, separated by commas. -/
  | promoters
  deriving DecidableEq, Repr

namespace Placeholder

/-- Every placeholder, in the order of the fields of a record. -/
def all : List Placeholder :=
  [year, month, day, monthName, performers, venue, promoters]

/-- No placeholder is missing from the list of all. -/
theorem mem_all (p : Placeholder) : p ∈ all := by
  cases p <;> decide

/-- The letter that a placeholder is written with. -/
def code : Placeholder → Char
  | year => 'y'
  | month => 'm'
  | day => 'd'
  | monthName => 'M'
  | performers => 'P'
  | venue => 'V'
  | promoters => 'p'

/-- The placeholder that a letter stands for. -/
def ofCode? : Char → Option Placeholder
  | 'y' => some year
  | 'm' => some month
  | 'd' => some day
  | 'M' => some monthName
  | 'P' => some performers
  | 'V' => some venue
  | 'p' => some promoters
  | _ => none

/-- A letter stands for the placeholder that is written with it, and for no other. -/
theorem ofCode?_eq_some_iff {c : Char} {p : Placeholder} : ofCode? c = some p ↔ c = p.code := by
  constructor
  · intro h
    unfold ofCode? at h
    split at h <;> simp_all [code] <;> subst h <;> rfl
  · rintro rfl
    cases p <;> rfl

/-- The placeholder as a pattern writes it. -/
def text (p : Placeholder) : Text :=
  [placeholderMark, p.code]

/-- Whether the field is a list of names. -/
def isList : Placeholder → Bool
  | performers | promoters => true
  | _ => false

/-- Whether a capture of the field ends at the last possible place instead of the first. -/
def isGreedy (p : Placeholder) : Bool :=
  p.isList

/-- Whether the field is a number. -/
def isNumeric : Placeholder → Bool
  | year | month | day => true
  | _ => false

end Placeholder

end EventFinder
