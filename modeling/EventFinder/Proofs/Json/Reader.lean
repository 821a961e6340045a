import EventFinder.Json
import EventFinder.Toml.Lexeme

/-!
# Reading JSON

A reader of JSON texts whose numbers are integers. Blanks may stand around every value, name and
sign. A string is read one character at a time; the code of a character outside the first plane
comes in two halves, and a half without the other one is no string. Words and numbers are runs of
letters, digits and a few signs, and are read as a whole, so that a number with leading zeros, a
fraction or an exponent is refused.

Lists and objects are lists of parts up to a closing sign, and `parts?` reads both. The number of
steps that it may take, and the depth to which `value?` may go, are bounded by the length of the
text, which no reading of it reaches.
-/

set_option autoImplicit false

namespace EventFinder

namespace Json

/-- Whether a character may stand between the parts of a JSON text. -/
def isBlank (c : Char) : Bool :=
  c = ' ' || c = '\t' || c = '\n' || c = '\r'

/-- The text without the blanks at its start. -/
def skipBlanks (text : Text) : Text :=
  text.dropWhile isBlank

/-! ## Strings -/

/-- Where the reading of a string stands. `high` is the first half of a character that is written in
two halves, if one was read and the second half is missing. -/
inductive StringState where
  /-- The next character stands for itself. -/
  | plain (high : Option Nat)
  /-- The last character was a backslash. -/
  | escape (high : Option Nat)
  /-- Digits of a code are missing; the value of those before is known. -/
  | code (high : Option Nat) (missing value : Nat)
  deriving DecidableEq

/-- The character that a letter behind a backslash stands for. -/
def escaped? : Char → Option Char
  | '"' => some '"'
  | '\\' => some '\\'
  | '/' => some '/'
  | 'b' => some '\x08'
  | 'f' => some '\x0C'
  | 'n' => some '\n'
  | 'r' => some '\r'
  | 't' => some '\t'
  | _ => none

/-- The step behind the last digit of a code: the finished character, or its first half. -/
def unitStep? (high : Option Nat) (unit : Nat) : Option (Option Char × StringState) :=
  match high with
  | none =>
    if 0xD800 ≤ unit ∧ unit < 0xDC00 then some (none, .plain (some unit))
    else (Toml.character? unit).map fun c => (some c, .plain none)
  | some high =>
    if 0xDC00 ≤ unit ∧ unit < 0xE000 then
      (Toml.character? (0x10000 + (high - 0xD800) * 0x400 + (unit - 0xDC00))).map fun c =>
        (some c, .plain none)
    else none

/-- The step behind a character of a string other than its closing quote. -/
def StringState.step? : StringState → Char → Option (Option Char × StringState)
  | .plain none, c =>
    if c = '\\' then some (none, .escape none)
    else if c.toNat < 0x20 then none
    else some (some c, .plain none)
  | .plain (some high), c => if c = '\\' then some (none, .escape (some high)) else none
  | .escape none, c =>
    if c = 'u' then some (none, .code none 4 0)
    else (escaped? c).map fun c => (some c, .plain none)
  | .escape (some high), c => if c = 'u' then some (none, .code (some high) 4 0) else none
  | .code high missing value, c =>
    match Toml.hexValue? c with
    | none => none
    | some digit =>
      if missing ≤ 1 then unitStep? high (value * 16 + digit)
      else some (none, .code high (missing - 1) (value * 16 + digit))

/-- The content of a string, behind its opening quote. -/
def string? : StringState → Text → Option (Text × Text)
  | _, [] => none
  | state, c :: rest =>
    if c = '"' ∧ state = .plain none then some ([], rest)
    else
      match state.step? c with
      | some (finished, next) => (string? next rest).map (Toml.consStep finished)
      | none => none

/-! ## Words and numbers -/

/-- Whether a character may stand in a word or a number. -/
def isWordChar (c : Char) : Bool :=
  c.isAlphanum || c = '+' || c = '-' || c = '.'

/-- The number that digits without leading zeros denote. -/
def natural? (digits : Text) : Option Nat :=
  if digits.head? = some '0' ∧ digits.length ≠ 1 then none else Text.digits? digits

/-- The number that digits with at most a minus sign in front of them denote. -/
def integer? : Text → Option Int
  | '-' :: digits => (natural? digits).map fun n : Nat => -(n : Int)
  | digits => (natural? digits).map Int.ofNat

/-- The value that a run of letters, digits and signs stands for. -/
def word? (word : Text) : Option Json :=
  match integer? word with
  | some n => some (.number n)
  | none =>
    if word = "null".toList then some .null
    else if word = "true".toList then some (.bool true)
    else if word = "false".toList then some (.bool false)
    else none

/-! ## Lists and objects -/

/-- One or more parts with commas between them up to the closing sign. -/
def parts? {α : Type} (part? : Text → Option (α × Text)) (close : Char) :
    Nat → Text → Option (List α × Text)
  | 0, _ => none
  | steps + 1, text =>
    match part? text with
    | none => none
    | some (part, rest) =>
      match skipBlanks rest with
      | [] => none
      | c :: rest =>
        if c = close then some ([part], rest)
        else if c = ',' then
          (parts? part? close steps rest).map fun (parts, rest) => (part :: parts, rest)
        else none

/-- Any number of parts up to the closing sign. -/
def list? {α : Type} (part? : Text → Option (α × Text)) (close : Char) (text : Text) :
    Option (List α × Text) :=
  match skipBlanks text with
  | [] => none
  | c :: rest => if c = close then some ([], rest) else parts? part? close text.length text

/-- A name, a colon and a value. -/
def member? (value? : Text → Option (Json × Text)) (text : Text) :
    Option ((Text × Json) × Text) :=
  match skipBlanks text with
  | '"' :: rest =>
    match string? (.plain none) rest with
    | none => none
    | some (name, rest) =>
      match skipBlanks rest with
      | ':' :: rest => (value? rest).map fun (value, rest) => ((name, value), rest)
      | _ => none
  | _ => none

/-- A value with at most the given number of lists and objects one inside the other. -/
def value? : Nat → Text → Option (Json × Text)
  | 0, _ => none
  | depth + 1, text =>
    match skipBlanks text with
    | '"' :: rest =>
      (string? (.plain none) rest).map fun (content, rest) => (.string content, rest)
    | '[' :: rest => (list? (value? depth) ']' rest).map fun (items, rest) => (.array items, rest)
    | '{' :: rest =>
      (list? (member? (value? depth)) '}' rest).map fun (members, rest) => (.object members, rest)
    | text =>
      (word? (text.takeWhile isWordChar)).map fun json => (json, text.dropWhile isWordChar)

/-- The value that a JSON text denotes. -/
def read? (text : Text) : Option Json :=
  match value? text.length text with
  | some (json, rest) => if (skipBlanks rest).isEmpty then some json else none
  | none => none

end Json

end EventFinder
