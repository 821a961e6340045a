import EventFinder.Placeholder

/-!
# Match errors

The ways in which a location does not fit a pattern. An error concerns one location only and says
which text was met where another was required.
-/

set_option autoImplicit false

namespace EventFinder

/-- Why a location does not fit a pattern. -/
inductive MatchError where
  /-- The text that is left does not start with the literal that comes next. -/
  | literalMismatch (expected remaining : Text)
  /-- The literal that ends the capture of a placeholder does not occur in the text that is left. -/
  | separatorNotFound (placeholder : Placeholder) (literal : Text)
  /-- Text is left behind the end of the pattern. -/
  | trailingText (remaining : Text)
  /-- The text of a number field is no number, or one that does not fit in 64 bits. -/
  | invalidNumber (placeholder : Placeholder) (value : Text)
  deriving DecidableEq, Repr

namespace MatchError

/-- The error in words. -/
def message : MatchError → Text
  | literalMismatch expected remaining =>
    "location does not match pattern: expected literal '".toList ++ expected ++
      "' but not found in remaining string '".toList ++ remaining ++ ['\'']
  | separatorNotFound placeholder literal =>
    "location does not match pattern: could not find separator '".toList ++ literal ++
      "' for placeholder '".toList ++ placeholder.text ++ ['\'']
  | trailingText remaining =>
    "location has trailing characters not matched by pattern: '".toList ++ remaining ++ ['\'']
  | invalidNumber placeholder value =>
    "location has invalid numeric value '".toList ++ value ++ "' for placeholder '".toList ++
      placeholder.text ++ ['\'']

end MatchError

end EventFinder
