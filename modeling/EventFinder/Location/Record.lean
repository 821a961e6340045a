import EventFinder.Location.Capture
import EventFinder.Location.Month
import EventFinder.Text.Blank
import EventFinder.Text.Number

/-!
# Event records

A record holds what the captures of one location say about an event. Each field is read from the
last capture of its placeholder and keeps its default, zero or empty, if there is none. A field
that is captured more than once, with different texts, makes the record inconsistent; so does a
month name that is none or that is not the name of the captured month.

Numbers are read in one of two ways. Leniently, a text that is no number, or a number that does not
fit in 64 bits, is zero. Strictly, a number is written with ASCII digits alone, and anything else
is an error; the empty text is zero in both ways.
-/

set_option autoImplicit false

namespace EventFinder

/-- How the number fields of a record are read. -/
inductive NumberMode where
  /-- What is no number is zero. -/
  | lenient
  /-- What is no number is an error. -/
  | strict
  deriving DecidableEq, Repr

/-- What a location says about an event. -/
structure EventRecord where
  year : Int := 0
  month : Int := 0
  day : Int := 0
  monthName : Text := []
  performers : List Text := []
  venue : Text := []
  promoters : List Text := []
  /-- Whether no two parts of the location contradict each other. -/
  consistent : Bool := true
  deriving DecidableEq, Repr

/-- The number that a captured text stands for. -/
def decodeNumber (mode : NumberMode) (placeholder : Placeholder) (value : Text) :
    Except MatchError Int :=
  if value.isEmpty then .ok 0
  else
    match mode with
    | .lenient => .ok ((Text.int64? value).getD 0)
    | .strict =>
      match (Text.digits? value).filter fun n => fits64 n with
      | some n => .ok n
      | none => .error (.invalidNumber placeholder value)

/-- The names in a captured text: the pieces between its commas, without the blanks around them. The
empty text holds no name. -/
def decodeList (value : Text) : List Text :=
  if value.isEmpty then [] else (value.splitOn ',').map Text.trim

namespace EventRecord

/-- The record with one field read from a capture. -/
def store (mode : NumberMode) (record : EventRecord) : Capture → Except MatchError EventRecord
  | (.year, value) => (decodeNumber mode .year value).map fun n => { record with year := n }
  | (.month, value) => (decodeNumber mode .month value).map fun n => { record with month := n }
  | (.day, value) => (decodeNumber mode .day value).map fun n => { record with day := n }
  | (.monthName, value) => .ok { record with monthName := value }
  | (.performers, value) => .ok { record with performers := decodeList value }
  | (.venue, value) => .ok { record with venue := Text.trim value }
  | (.promoters, value) => .ok { record with promoters := decodeList value }

/-- The record with the fields of all captures, the later ones last. -/
def storeAll (mode : NumberMode) : EventRecord → List Capture → Except MatchError EventRecord
  | record, [] => .ok record
  | record, capture :: rest =>
    match record.store mode capture with
    | .ok record => storeAll mode record rest
    | .error e => .error e

end EventRecord

/-- The text of the first capture of a placeholder. -/
def firstCapture? (placeholder : Placeholder) (captures : List Capture) : Option Text :=
  (captures.find? fun capture => capture.1 = placeholder).map Prod.snd

/-- Whether repeated captures of a placeholder have the same text. -/
def repeatsAgree (captures : List Capture) : Bool :=
  captures.all fun capture => firstCapture? capture.1 captures = some capture.2

/-- Whether the month name of a record, if it has one, is a month name, and the name of the month
where the month is captured as a number. -/
def monthAgrees (captures : List Capture) (record : EventRecord) : Bool :=
  if record.monthName.isEmpty then true
  else
    match Month.number? record.monthName with
    | none => false
    | some number =>
      !(captures.any fun capture => capture.1 = .month) || record.month == (number : Int)

/-- The record that the captures of a location, in the order of the pattern, stand for. -/
def decode (mode : NumberMode) (captures : List Capture) : Except MatchError EventRecord :=
  (EventRecord.storeAll mode {} captures).map fun record =>
    { record with consistent := repeatsAgree captures && monthAgrees captures record }

/-- The record of a location that fits the pattern. -/
def Pattern.read (pattern : Pattern) (mode : NumberMode) (location : Text) :
    Except MatchError EventRecord :=
  match capture pattern.tokens location with
  | .ok captures => decode mode captures
  | .error e => .error e

/-- Why a pattern that was not checked before gives no record for a location. -/
inductive LocationError where
  /-- The pattern cannot be read, so that no location fits it. -/
  | pattern (error : PatternError)
  /-- This location does not fit the pattern. -/
  | mismatch (error : MatchError)
  deriving DecidableEq, Repr

/-- Whether the error concerns one location only. -/
def LocationError.isPerLocation : LocationError → Bool
  | .pattern _ => false
  | .mismatch _ => true

/-- The record of a location by the text of a pattern, in which placeholders may follow one another
directly. Numbers are read leniently. -/
def readLocation (source location : Text) : Except LocationError EventRecord :=
  match Pattern.compileLenient source with
  | .error e => .error (.pattern e)
  | .ok pattern =>
    match pattern.read .lenient location with
    | .ok record => .ok record
    | .error e => .error (.mismatch e)

end EventFinder
