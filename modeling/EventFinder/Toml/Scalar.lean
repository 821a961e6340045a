import EventFinder.Settings.Value
import EventFinder.Text.Number

/-!
# The scalars of TOML

Truth values, numbers, dates and times are runs of letters, digits and a few signs. A run is read as
a whole: it is exactly one scalar, or nothing. Underscores may stand between two digits of a number.
Numbers have to fit in 64 bits; what is too small for a fraction of that size, or has too many
digits, is rounded. Dates and times are checked against the calendar and the clock.
-/

set_option autoImplicit false

namespace EventFinder

namespace Toml

/-- Whether a character may stand in a scalar. -/
def isScalarChar (c : Char) : Bool :=
  c.isAlphanum || c = '+' || c = '-' || c = '.' || c = '_' || c = ':'

/-- A run of digits without the underscores between them, if every underscore stands between two
digits. -/
def withoutUnderscores (isDigit : Char → Bool) (digits : Text) : Option Text :=
  if digits.all (fun c => isDigit c || c = '_') && digits.head?.any isDigit &&
      digits.getLast?.any isDigit && !(Text.holds ['_', '_'] digits) then
    some (digits.filter (· ≠ '_'))
  else none

/-- Whether a text is one or more digits with underscores between some of them. -/
def isDigits (digits : Text) : Bool :=
  (withoutUnderscores Char.isDigit digits).isSome

/-- A text without the sign in front of it. -/
def unsigned : Text → Text
  | '+' :: rest => rest
  | '-' :: rest => rest
  | text => text

/-- Whether a text is a decimal number without leading zeros and without a sign. -/
def isPlainDecimal (text : Text) : Bool :=
  isDigits text && (text.length = 1 || text.head? ≠ some '0')

/-- The digits of the bases other than ten, by the letter that announces them. -/
def baseOf? : Char → Option (Nat × (Char → Bool))
  | 'x' => some (16, fun c => c.isDigit || ('a' ≤ c && c ≤ 'f') || ('A' ≤ c && c ≤ 'F'))
  | 'o' => some (8, fun c => '0' ≤ c && c ≤ '7')
  | 'b' => some (2, fun c => c = '0' || c = '1')
  | _ => none

/-- The value of a digit in a base up to sixteen. -/
def digitValue (c : Char) : Nat :=
  if c.isDigit then c.toNat - '0'.toNat else c.toLower.toNat - 'a'.toNat + 10

/-- Whether a text is an integer that fits in 64 bits. -/
def isInteger (text : Text) : Bool :=
  match text with
  | '0' :: letter :: digits =>
    match baseOf? letter with
    | some (base, isDigit) =>
      match withoutUnderscores isDigit digits with
      | some digits => fits64 (digits.foldl (fun n c => n * base + digitValue c) 0 : Nat)
      | none => false
    | none => false
  | _ =>
    isPlainDecimal (unsigned text) &&
      (Text.int64? (text.filter (· ≠ '_'))).isSome

/-- The exponent that a text is. -/
def exponent? (text : Text) : Option Int :=
  if isDigits (unsigned text) then Text.int? (text.filter (· ≠ '_')) else none

/-- Whether a character announces an exponent. -/
def isExponentMark (c : Char) : Bool :=
  c = 'e' || c = 'E'

/-- A decimal number: digits, and the power of ten that they are multiplied by. -/
structure Decimal where
  digits : Text
  exponent : Int

/-- The decimal number with a fraction, an exponent or both that a text without a sign is. -/
def decimal? (number : Text) : Option Decimal :=
  let mantissa := number.takeWhile fun c => !isExponentMark c
  let whole := mantissa.takeWhile (· ≠ '.')
  let fraction? :=
    match mantissa.dropWhile (· ≠ '.') with
    | [] => some []
    | _ :: fraction => withoutUnderscores Char.isDigit fraction
  let exponent? :=
    match number.dropWhile fun c => !isExponentMark c with
    | [] => some 0
    | _ :: exponent => exponent? exponent
  match fraction?, exponent? with
  | some fraction, some exponent =>
    if isPlainDecimal whole ∧ number ≠ whole then
      some ⟨whole.filter (· ≠ '_') ++ fraction, exponent - fraction.length⟩
    else none
  | _, _ => none

/-- The least number that is rounded to infinity in 64 bits. It lies halfway between the largest
number that fits and the power of two behind that one. -/
def leastInfinite : Nat := Nat.pow 2 1024 - Nat.pow 2 970

/-- Whether a decimal number is rounded to infinity in 64 bits. Only a number that has 309 digits
before the point, which is as many as `leastInfinite` has, is compared with it. -/
def Decimal.isInfinite (decimal : Decimal) : Bool :=
  let digits := decimal.digits.dropWhile (· = '0')
  let digitsBeforePoint : Int := digits.length + decimal.exponent
  if digitsBeforePoint < 309 then false
  else if 309 < digitsBeforePoint then !digits.isEmpty
  else
    leastInfinite * Nat.pow 10 (-decimal.exponent).toNat ≤
      Nat.ofDigitChars 10 digits 0 * Nat.pow 10 decimal.exponent.toNat

/-- Whether a text is a number with a fraction, an exponent or both, or one of the special numbers.
No number but the special one may be infinite and without a minus sign. -/
def isFloat (text : Text) : Bool :=
  let number := unsigned text
  number = "inf".toList || number = "nan".toList ||
    (decimal? number).any fun decimal => !decimal.isInfinite || text.head? = some '-'

/-- A number of exactly the given count of digits. -/
def fixedNumber? (count : Nat) (text : Text) : Option (Nat × Text) :=
  match Text.digits? (text.take count) with
  | some n => if (text.take count).length = count then some (n, text.drop count) else none
  | none => none

/-- The number of days in a month. -/
def daysIn (year month : Nat) : Nat :=
  if month = 2 then
    if year % 4 = 0 ∧ (year % 100 ≠ 0 ∨ year % 400 = 0) then 29 else 28
  else if month = 4 ∨ month = 6 ∨ month = 9 ∨ month = 11 then 30
  else 31

/-- What follows a date. -/
def date? (text : Text) : Option Text :=
  match fixedNumber? 4 text with
  | some (year, '-' :: rest) =>
    match fixedNumber? 2 rest with
    | some (month, '-' :: rest) =>
      match fixedNumber? 2 rest with
      | some (day, rest) =>
        if 1 ≤ month ∧ month ≤ 12 ∧ 1 ≤ day ∧ day ≤ daysIn year month then some rest else none
      | none => none
    | _ => none
  | _ => none

/-- What follows the hours and minutes of a time. -/
def hourAndMinute? (text : Text) : Option Text :=
  match fixedNumber? 2 text with
  | some (hour, ':' :: rest) =>
    match fixedNumber? 2 rest with
    | some (minute, rest) => if hour ≤ 23 ∧ minute ≤ 59 then some rest else none
    | none => none
  | _ => none

/-- What follows a time of day. -/
def time? (text : Text) : Option Text :=
  match hourAndMinute? text with
  | some (':' :: rest) =>
    match fixedNumber? 2 rest with
    | some (second, rest) =>
      if second ≤ 60 then
        match rest with
        | '.' :: fraction =>
          if fraction.head?.any Char.isDigit then some (fraction.dropWhile Char.isDigit) else none
        | rest => some rest
      else none
    | none => none
  | _ => none

/-- Whether a text is the distance of a local time from universal time, or empty. -/
def isOffset : Text → Bool
  | [] => true
  | ['Z'] => true
  | ['z'] => true
  | '+' :: rest => hourAndMinute? rest = some []
  | '-' :: rest => hourAndMinute? rest = some []
  | _ => false

/-- Whether a text is a time of day, with its distance from universal time or without. -/
def isTimeWithOffset (text : Text) : Bool :=
  (time? text).any isOffset

/-- Whether a text is a date, a time of day, or both. -/
def isDateTime (text : Text) : Bool :=
  time? text = some [] ||
    match date? text with
    | some [] => true
    | some (mark :: time) => (mark = 'T' || mark = 't') && isTimeWithOffset time
    | none => false

/-- A date with the time of day behind a blank. -/
def spacedTime? (run rest : Text) : Option Text :=
  match rest with
  | ' ' :: rest =>
    if date? run = some [] && isTimeWithOffset (rest.takeWhile isScalarChar) then
      some (rest.dropWhile isScalarChar)
    else none
  | _ => none

/-- A scalar. Dates and times are tables without any key that a setting has. -/
def scalar? (text : Text) : Option (SettingValue × Text) :=
  let run := text.takeWhile isScalarChar
  let rest := text.dropWhile isScalarChar
  if run = "true".toList then some (.flag true, rest)
  else if run = "false".toList then some (.flag false, rest)
  else if isInteger run || isFloat run then some (.number, rest)
  else if isDateTime run then some (.table [], (spacedTime? run rest).getD rest)
  else none

end Toml

end EventFinder
