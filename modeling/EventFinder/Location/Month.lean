import EventFinder.Text

/-!
# Month names

The full English month names, found in any letter case and written capitalised. Abbreviations and
names with blanks around them are no month names.
-/

set_option autoImplicit false

namespace EventFinder

namespace Month

/-- The month names in calendar order, capitalised. -/
def names : List Text :=
  ["January".toList, "February".toList, "March".toList, "April".toList, "May".toList,
   "June".toList, "July".toList, "August".toList, "September".toList, "October".toList,
   "November".toList, "December".toList]

/-- The lower-case form of a character, where that is a letter from a to z. The Kelvin sign is the
only character outside ASCII with such a form: no other one can be part of a month name. -/
def foldCase (c : Char) : Char :=
  if c = '\u212A' then 'k' else c.toLower

/-- Two texts that differ in letter case only. -/
def sameLetters (a b : Text) : Bool :=
  a.map foldCase == b.map foldCase

/-- The number, from 1 to 12, of the month with the given name. -/
def number? (name : Text) : Option Nat :=
  (names.findIdx? (sameLetters name)).map (· + 1)

/-- The name of the month with the given number. -/
def name? (number : Int) : Option Text :=
  if 1 ≤ number then names[(number - 1).toNat]? else none

/-- A month is found by its own name. -/
theorem number?_name? :
    ∀ n : Fin 12, (name? (n.val + 1)).bind number? = some (n.val + 1) := by
  decide

end Month

end EventFinder
