import EventFinder.Placeholder
import EventFinder.Text.Number

/-!
# Location patterns

A pattern is literal text with placeholders in it. `Pattern.compile` reads the text of a pattern
into tokens and refuses two placeholders without literal text between them, because the boundary
between their captures could not be found again; `Pattern.compileLenient` lets them pass. `render`
writes tokens back.

Reading goes through the text once from left to right, so that the first percent sign that cannot be
read decides the error. Errors point at it by its offset in bytes.

A location has one directory level more than its pattern has slashes (`levels`).
-/

set_option autoImplicit false

namespace EventFinder

/-- One element of a pattern. -/
inductive Token where
  /-- Text that a location has to repeat. -/
  | literal (text : Text)
  /-- A field to capture. -/
  | field (placeholder : Placeholder)
  deriving DecidableEq, Repr

namespace Token

/-- The token as a pattern writes it. -/
def text : Token → Text
  | literal text => text
  | field placeholder => placeholder.text

/-- Whether the token is a placeholder. -/
def isField : Token → Bool
  | literal _ => false
  | field _ => true

/-- The placeholder that the token is, if it is one. -/
def placeholder? : Token → Option Placeholder
  | literal _ => none
  | field placeholder => some placeholder

/-- Puts a character of literal text in front of tokens. -/
def consLiteral (c : Char) : List Token → List Token
  | literal text :: tokens => literal (c :: text) :: tokens
  | tokens => literal [c] :: tokens

end Token

/-- The text of a token list. -/
def render (tokens : List Token) : Text :=
  tokens.flatMap Token.text

/-- Why a text is no pattern. Offsets are those of the percent sign that cannot be read, in bytes.
-/
inductive PatternError where
  /-- The pattern ends with a percent sign. -/
  | trailingPercent (offset : Nat)
  /-- The letter after a percent sign is no code. -/
  | unknownPlaceholder (code : Char) (offset : Nat)
  /-- A placeholder directly follows another one. `next` is the text from the percent sign on, two
  characters of it at most. -/
  | adjacentPlaceholders (previous : Placeholder) (next : Text) (offset : Nat)
  deriving DecidableEq, Repr

namespace PatternError

/-- Where the percent sign stands that cannot be read, in bytes from the start of the pattern. -/
def offset : PatternError → Nat
  | trailingPercent offset => offset
  | unknownPlaceholder _ offset => offset
  | adjacentPlaceholders _ _ offset => offset

/-- The error in words. -/
def message : PatternError → Text
  | trailingPercent offset =>
    "invalid pattern: trailing '%' at offset ".toList ++ Text.ofNat offset
  | unknownPlaceholder code offset =>
    "invalid pattern: unknown placeholder '".toList ++ [placeholderMark, code] ++
      "' at offset ".toList ++ Text.ofNat offset
  | adjacentPlaceholders previous next offset =>
    "invalid pattern: placeholders must be separated ('".toList ++ previous.text ++
      "' followed by '".toList ++ next ++ "' at offset ".toList ++ Text.ofNat offset ++ [')']

end PatternError

/-- Whether a placeholder may directly follow another one. -/
inductive Adjacency where
  | refused
  | allowed
  deriving DecidableEq, Repr

/-- Reads the rest of a pattern. `offset` is the number of bytes before it, and `previous` the
placeholder that stands directly before it. -/
def tokenize (adjacency : Adjacency) (offset : Nat) (previous : Option Placeholder) :
    Text → Except PatternError (List Token)
  | [] => .ok []
  | c :: rest =>
    if c = placeholderMark then
      match adjacency, previous with
      | .refused, some previous =>
        .error (.adjacentPlaceholders previous ((c :: rest).take 2) offset)
      | _, _ =>
        match rest with
        | [] => .error (.trailingPercent offset)
        | code :: rest =>
          match Placeholder.ofCode? code with
          | none => .error (.unknownPlaceholder code offset)
          | some placeholder =>
            (tokenize adjacency (offset + c.utf8Size + code.utf8Size) (some placeholder) rest).map
              (Token.field placeholder :: ·)
    else (tokenize adjacency (offset + c.utf8Size) none rest).map (Token.consLiteral c)

/-- The directory levels that a location of the pattern spans: one more than there are slashes in
its text, and none for the empty pattern. Where the name of the scanned directory is part of the
location, one of the levels lies above the directory. -/
def levels (pattern : Text) (includeParent : Bool) : Nat :=
  if pattern.isEmpty then 0
  else if includeParent then pattern.count '/' else pattern.count '/' + 1

/-- A pattern that has been read. -/
structure Pattern where
  /-- The text of the pattern. -/
  source : Text
  /-- The elements of the pattern, in order. -/
  tokens : List Token
  deriving DecidableEq, Repr

namespace Pattern

/-- Reads a pattern in which literal text separates the placeholders. -/
def compile (source : Text) : Except PatternError Pattern :=
  (tokenize .refused 0 none source).map (Pattern.mk source)

/-- Reads a pattern in which placeholders may follow one another directly. -/
def compileLenient (source : Text) : Except PatternError Pattern :=
  (tokenize .allowed 0 none source).map (Pattern.mk source)

/-- Whether a text is a pattern. The empty text is one. -/
def validate (source : Text) : Except PatternError Unit :=
  (tokenize .refused 0 none source).map fun _ => ()

/-- Whether the pattern is the empty one. -/
def isEmpty (pattern : Pattern) : Bool :=
  pattern.tokens.isEmpty

/-- The placeholders of the pattern in order, repeated ones included. -/
def placeholders (pattern : Pattern) : List Placeholder :=
  pattern.tokens.filterMap Token.placeholder?

end Pattern

end EventFinder
