import EventFinder.Location.MatchError
import EventFinder.Pattern
import EventFinder.Text.Search

/-!
# Captures

`capture` goes through the tokens of a pattern and a location from left to right and never steps
back. A literal has to stand at the start of the text that is left. A placeholder captures the text
up to the literal that comes next in the pattern, the last occurrence of it for the list fields and
the first one for all others; with no literal left to come it captures everything.

Placeholders at the end of a pattern are optional. Where only placeholders follow a literal, a
location may stop inside that literal: the placeholders then capture the empty text. For the same
reason a placeholder takes all the text that is left when such a literal is missing, and leaves the
decision to the literal.
-/

set_option autoImplicit false

namespace EventFinder

/-- A placeholder with the text that it stands for in a location. -/
abbrev Capture := Placeholder × Text

/-- The first literal among the tokens and the tokens after it. -/
def nextLiteral? : List Token → Option (Text × List Token)
  | [] => none
  | .literal text :: rest => some (text, rest)
  | .field _ :: rest => nextLiteral? rest

/-- Whether there are tokens and all of them are placeholders. -/
def isOptionalTail (tokens : List Token) : Bool :=
  !tokens.isEmpty && tokens.all Token.isField

/-- Empty captures of the placeholders among the tokens. -/
def emptyCaptures (tokens : List Token) : List Capture :=
  (tokens.filterMap Token.placeholder?).map fun placeholder => (placeholder, [])

/-- The captures of the tokens in a text, in the order of the tokens. -/
def capture : List Token → Text → Except MatchError (List Capture)
  | [], [] => .ok []
  | [], remaining => .error (.trailingText remaining)
  | .literal literal :: tail, remaining =>
    match Text.after? literal remaining with
    | some rest => capture tail rest
    | none =>
      if isOptionalTail tail && remaining.isPrefixOf literal then .ok (emptyCaptures tail)
      else .error (.literalMismatch literal remaining)
  | .field placeholder :: tail, remaining =>
    match nextLiteral? tail with
    | none => (capture tail []).map ((placeholder, remaining) :: ·)
    | some (literal, behind) =>
      match Text.boundary placeholder.isGreedy literal remaining with
      | some (value, rest) => (capture tail rest).map ((placeholder, value) :: ·)
      | none =>
        if behind.all Token.isField then (capture tail []).map ((placeholder, remaining) :: ·)
        else .error (.separatorNotFound placeholder literal)

end EventFinder
