import EventFinder.Text

/-!
# Setting values

What a settings file or an environment variable says is a tree of values before it is known which
fields it has to fill. Tables of two layers are merged key by key, so that a layer changes the
fields that it names and no others; everything else in an upper layer takes the place of what lies
below.
-/

set_option autoImplicit false

namespace EventFinder

/-- A value of a setting, or a table of settings. -/
inductive SettingValue where
  | text (value : Text)
  | flag (value : Bool)
  /-- A number. No setting is one, so that its value does not matter. -/
  | number
  | list (items : List SettingValue)
  /-- A table whose keys are all different. -/
  | table (entries : List (Text × SettingValue))

/-- Keys with their values. -/
abbrev SettingTable := List (Text × SettingValue)

namespace SettingTable

/-- The table with the value of one key changed. `change` is given the value that the key has, if
any. -/
def alter (key : Text) (change : Option SettingValue → SettingValue) : SettingTable → SettingTable
  | [] => [(key, change none)]
  | (other, value) :: rest =>
    if other = key then (other, change (some value)) :: rest
    else (other, value) :: alter key change rest

end SettingTable

namespace SettingValue

mutual

/-- The value with `lower` below it. -/
def overlay (lower : SettingValue) : SettingValue → SettingValue
  | table upper =>
    match lower with
    | table lower => table (overlayTable lower upper)
    | _ => table upper
  | value => value

/-- The table with `lower` below it. -/
def overlayTable (lower : SettingTable) : SettingTable → SettingTable
  | [] => lower
  | (key, value) :: rest =>
    overlayTable
      (lower.alter key fun
        | some below => overlay below value
        | none => value)
      rest

end

/-- The text that the value is. -/
def text? : SettingValue → Option Text
  | text value => some value
  | _ => none

/-- The truth value that the value is. -/
def flag? : SettingValue → Option Bool
  | flag value => some value
  | _ => none

/-- The texts that the value is a list of. -/
def texts? : SettingValue → Option (List Text)
  | list items => items.mapM text?
  | _ => none

/-- The key under which a table may hold the value that it stands for. -/
def valueKey : Text := "___figment_value_value".toList

/-- The key that no table inside a document may have. -/
def reservedKey : Text := "___figment_value_id".toList

/-- The value that a table inside a document stands for: the one under `valueKey`, if the table has
that key, and else the table. A table with `reservedKey` stands for none. -/
def ofTable? (entries : SettingTable) : Option SettingValue :=
  if (entries.lookup reservedKey).isSome then none
  else some ((entries.lookup valueKey).getD (table entries))

/-- Whether the value can be a section: a table of its fields, or a list of them in their order. -/
def isSection : SettingValue → Bool
  | table _ => true
  | list _ => true
  | _ => false

/-- The field of a section with the given key and place. -/
def field? (key : Text) (place : Nat) : SettingValue → Option SettingValue
  | table entries => entries.lookup key
  | list items => items[place]?
  | _ => none

end SettingValue

end EventFinder
