import EventFinder.Location.Record

/-!
# Events and their locations

An event is what the name of a directory is made from. `Event.location` writes it by a pattern:
every placeholder becomes the text of its field. `Event.expected` is the record that reading such a
location is meant to give back: the fields that the pattern names, and the defaults for all others.
-/

set_option autoImplicit false

namespace EventFinder

/-- The separator between the names in a list field. -/
def listSeparator : Text := ", ".toList

/-- A concert or another event that photos were taken at. -/
structure Event where
  year : Int
  month : Int
  day : Int
  performers : List Text
  venue : Text
  promoters : List Text
  deriving DecidableEq, Repr

/-- The known parts of an event. -/
structure EventDraft where
  /-- Year, month and day. -/
  date : Option (Int × Int × Int) := none
  performers : List Text := []
  venue : Option Text := none
  promoters : List Text := []

/-- The event of a draft. The parts that it leaves out are those of a made-up event on 24 January
2024; only the promoters stay unknown. -/
def EventDraft.complete (draft : EventDraft) : Event :=
  let (year, month, day) := draft.date.getD (2024, 1, 24)
  { year, month, day
    performers := if draft.performers.isEmpty then ["Performer1".toList] else draft.performers
    venue := draft.venue.getD "Venue Name".toList
    promoters := draft.promoters }

namespace Event

/-- The text of a field: years take four characters and months and days two, with zeros in front,
and a month without a name has the empty one. -/
def fieldText (event : Event) : Placeholder → Text
  | .year => Text.zeroPadded 4 event.year
  | .month => Text.zeroPadded 2 event.month
  | .day => Text.zeroPadded 2 event.day
  | .monthName => (Month.name? event.month).getD []
  | .performers => listSeparator.intercalate event.performers
  | .venue => event.venue
  | .promoters => listSeparator.intercalate event.promoters

/-- The text that a token becomes. -/
def tokenText (event : Event) : Token → Text
  | .literal text => text
  | .field placeholder => event.fieldText placeholder

/-- The location of the event by a pattern. -/
def location (event : Event) (pattern : Pattern) : Text :=
  pattern.tokens.flatMap event.tokenText

/-- The record with one field taken from the event. -/
def fill (event : Event) (record : EventRecord) : Placeholder → EventRecord
  | .year => { record with year := event.year }
  | .month => { record with month := event.month }
  | .day => { record with day := event.day }
  | .monthName => { record with monthName := event.fieldText .monthName }
  | .performers => { record with performers := event.performers }
  | .venue => { record with venue := event.venue }
  | .promoters => { record with promoters := event.promoters }

/-- The record of the event as far as the pattern names its fields. -/
def expected (event : Event) (pattern : Pattern) : EventRecord :=
  pattern.placeholders.foldl event.fill {}

end Event

end EventFinder
