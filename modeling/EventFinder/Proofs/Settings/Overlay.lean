import Mathlib.Data.List.Nodup
import Mathlib.Data.Set.List
import EventFinder.Proofs.Lookup
import EventFinder.Settings.Value

/-!
# Tables over tables

A table over another one is settled key by key: the value of a key is the upper one over the lower
one (`lookup_overlayTable`). Of several values one over the other, only the last one counts, unless
it is a table (`eq_of_settle`). So when tables lie over each other, each key with a value that is
no table has it from the last table that names the key.
-/

set_option autoImplicit false

namespace EventFinder

namespace SettingTable

/-- No key stands twice in the table. -/
def Distinct (table : SettingTable) : Prop :=
  (table.map Prod.fst).Nodup

/-- The empty table has no key twice. -/
theorem distinct_nil : Distinct [] :=
  List.nodup_nil

/-- A table of one key has it once. -/
theorem distinct_singleton (key : Text) (value : SettingValue) : Distinct [(key, value)] :=
  List.nodup_singleton key

/-- Changing the value of a key leaves the values of all other keys as they were. -/
theorem lookup_alter (key other : Text) (change : Option SettingValue → SettingValue)
    (table : SettingTable) :
    (alter key change table).lookup other =
      if other = key then some (change (table.lookup key)) else table.lookup other := by
  induction table with
  | nil => simp only [alter, lookup_cons_eq_ite, List.lookup_nil]
  | cons entry rest ih =>
    obtain ⟨name, value⟩ := entry
    unfold alter
    by_cases hname : name = key
    · subst hname
      simp only [if_true, lookup_cons_eq_ite]
      split <;> rfl
    · rw [if_neg hname]
      simp only [lookup_cons_eq_ite, ih, if_neg (Ne.symm hname)]
      split
      · rename_i hother
        rw [if_neg (hother ▸ hname)]
      · rfl

/-- Changing the value of a key adds the key, if it is new, behind all others. -/
theorem keys_alter (key : Text) (change : Option SettingValue → SettingValue)
    (table : SettingTable) :
    (alter key change table).map Prod.fst =
      if key ∈ table.map Prod.fst then table.map Prod.fst else table.map Prod.fst ++ [key] := by
  induction table with
  | nil => rfl
  | cons entry rest ih =>
    obtain ⟨name, value⟩ := entry
    unfold alter
    by_cases hname : name = key
    · simp [hname]
    · rw [if_neg hname, List.map_cons, ih]
      by_cases hrest : key ∈ rest.map Prod.fst
      · simp only [hrest, if_true, List.map_cons, List.mem_cons, or_true]
      · simp only [hrest, if_false, List.map_cons, List.mem_cons, Ne.symm hname, or_self,
          List.cons_append]

/-- Changing the value of a key adds no key that is there already. -/
theorem Distinct.alter {table : SettingTable} (h : Distinct table) (key : Text)
    (change : Option SettingValue → SettingValue) : Distinct (table.alter key change) := by
  unfold Distinct at h ⊢
  rw [keys_alter]
  split
  · exact h
  · rename_i hkey
    rw [← List.concat_eq_append]
    exact h.concat hkey

end SettingTable

namespace SettingValue

open SettingTable (Distinct)

/-- A value over the value below it, if there is one. -/
def cover (below : Option SettingValue) (value : SettingValue) : SettingValue :=
  match below with
  | some below => overlay below value
  | none => value

/-- A table over another one puts its first value over the one below, and then the others. -/
theorem overlayTable_cons (lower rest : SettingTable) (key : Text) (value : SettingValue) :
    overlayTable lower ((key, value) :: rest) =
      overlayTable (lower.alter key fun below => cover below value) rest := by
  rw [overlayTable]
  rfl

/-- A table over another one adds no key twice, not even one that it has twice itself. -/
theorem distinct_overlayTable {lower : SettingTable} (h : Distinct lower) (upper : SettingTable) :
    Distinct (overlayTable lower upper) := by
  induction upper generalizing lower with
  | nil =>
    rw [overlayTable]
    exact h
  | cons entry rest ih =>
    rw [overlayTable_cons]
    exact ih (h.alter _ _)

/-- A table over another one leaves the keys alone that it does not have, and puts the value of each
key that it has over the one below. -/
theorem lookup_overlayTable {upper : SettingTable} (h : Distinct upper) (lower : SettingTable)
    (key : Text) :
    (overlayTable lower upper).lookup key =
      match upper.lookup key with
      | some value => some (cover (lower.lookup key) value)
      | none => lower.lookup key := by
  induction upper generalizing lower with
  | nil =>
    rw [overlayTable]
    rfl
  | cons entry rest ih =>
    obtain ⟨name, value⟩ := entry
    obtain ⟨hname, hrest⟩ := List.nodup_cons.1 h
    rw [overlayTable_cons, ih hrest, lookup_cons_eq_ite, SettingTable.lookup_alter]
    by_cases hkey : key = name
    · subst hkey
      simp [lookup_eq_none_iff_notMem_keys.2 hname]
    · simp [hkey]

/-- Several tables over each other settle each key by the values that they have for it. -/
theorem lookup_foldl_overlayTable {tables : List SettingTable}
    (h : ∀ table ∈ tables, Distinct table) (lowest : SettingTable) (key : Text) :
    (tables.foldl overlayTable lowest).lookup key =
      (tables.filterMap (List.lookup key)).foldl (fun below value => some (cover below value))
        (lowest.lookup key) := by
  induction tables generalizing lowest with
  | nil => rfl
  | cons table tables ih =>
    obtain ⟨htable, htables⟩ := List.forall_mem_cons.1 h
    rw [List.foldl_cons, ih htables, lookup_overlayTable htable, List.filterMap_cons]
    cases table.lookup key <;> rfl

/-- Several tables over each other add no key twice either. -/
theorem distinct_foldl_overlayTable {lowest : SettingTable} (h : Distinct lowest)
    (tables : List SettingTable) : Distinct (tables.foldl overlayTable lowest) := by
  induction tables generalizing lowest with
  | nil => exact h
  | cons table tables ih => exact ih (distinct_overlayTable h table)

/-- Nothing shows through a value that is no table. -/
theorem cover_of_ne_table {below : Option SettingValue} {value : SettingValue}
    (h : ∀ entries, cover below value ≠ table entries) : cover below value = value := by
  cases below with
  | none => rfl
  | some below =>
    cases value with
    | table entries =>
      cases below <;> exact absurd rfl (h _)
    | _ => rfl

/-- Values over each other, and over the lowest one, if there is any. -/
def settle (lowest : Option SettingValue) (values : List SettingValue) : Option SettingValue :=
  match values.foldl (fun below value => some (cover below value)) none with
  | some upper => some (cover lowest upper)
  | none => lowest

/-- Without values over it, the lowest one counts. -/
theorem settle_nil (lowest : Option SettingValue) : settle lowest [] = lowest :=
  rfl

/-- A value alone counts. -/
theorem settle_none_singleton (value : SettingValue) : settle none [value] = some value :=
  rfl

/-- The last value lies over what is settled of the others. -/
theorem settle_append_singleton (lowest : Option SettingValue) (values : List SettingValue)
    (last : SettingValue) :
    ∃ below, settle lowest (values ++ [last]) = some (cover lowest (cover below last)) := by
  refine ⟨values.foldl (fun below value => some (cover below value)) none, ?_⟩
  rw [settle, List.foldl_append]
  rfl

/-- Of values one over the other, only the last one counts, unless it is a table. -/
theorem eq_of_settle {lowest : Option SettingValue} {values : List SettingValue}
    {value : SettingValue} (h : settle lowest values = some value)
    (hvalue : ∀ entries, value ≠ table entries) :
    values.getLast? = some value ∨ values = [] ∧ lowest = some value := by
  rcases List.eq_nil_or_concat values with rfl | ⟨earlier, last, rfl⟩
  · exact .inr ⟨rfl, h⟩
  · rw [List.concat_eq_append] at h ⊢
    obtain ⟨below, hsettle⟩ := settle_append_singleton lowest earlier last
    rw [hsettle, Option.some.injEq] at h
    subst h
    have hupper := cover_of_ne_table hvalue
    rw [hupper] at hvalue ⊢
    rw [cover_of_ne_table hvalue, List.getLast?_concat]
    exact .inl rfl

/-- Nothing is settled only if there is no value at all. -/
theorem settle_eq_none {lowest : Option SettingValue} {values : List SettingValue}
    (h : settle lowest values = none) : values = [] ∧ lowest = none := by
  rcases List.eq_nil_or_concat values with rfl | ⟨earlier, last, rfl⟩
  · exact ⟨rfl, h⟩
  · obtain ⟨below, hsettle⟩ := settle_append_singleton lowest earlier last
    rw [List.concat_eq_append, hsettle] at h
    cases h

/-- Tables over each other, and over a table below them, settle each key by itself. -/
theorem lookup_overlayTable_foldl {tables : List SettingTable}
    (h : ∀ table ∈ tables, Distinct table) (lowest : SettingTable) (key : Text) :
    (overlayTable lowest (tables.foldl overlayTable [])).lookup key =
      settle (lowest.lookup key) (tables.filterMap (List.lookup key)) := by
  rw [lookup_overlayTable (distinct_foldl_overlayTable SettingTable.distinct_nil tables),
    lookup_foldl_overlayTable h, settle]
  rfl

/-- Tables over each other, the first of them over nothing. -/
theorem foldl_cover_tables (first : SettingTable) (rest : List SettingTable) :
    (rest.map table).foldl (fun below value => some (cover below value)) (some (table first)) =
      some (table (rest.foldl overlayTable first)) := by
  induction rest generalizing first with
  | nil => rfl
  | cons next rest ih =>
    rw [List.map_cons, List.foldl_cons, List.foldl_cons, ← ih]
    simp only [cover, overlay]

/-- A table over a table settles each of its fields by itself. -/
theorem field?_cover_table (below : Option SettingValue)
    (hbelow : ∀ value ∈ below, ∃ entries, value = table entries) {upper : SettingTable}
    (h : Distinct upper) (key : Text) (place : Nat) :
    field? key place (cover below (table upper)) =
      match upper.lookup key with
      | some value => some (cover (below.bind (field? key place)) value)
      | none => below.bind (field? key place) := by
  cases below with
  | none =>
    cases hkey : upper.lookup key <;> simp [cover, field?, hkey]
  | some value =>
    obtain ⟨lower, rfl⟩ := hbelow value rfl
    simp only [cover, overlay, field?, Option.bind_some, lookup_overlayTable h]

/-- Sections that are said in tables, or only once, are settled field by field. -/
theorem field?_settle {below : Option SettingValue} {values : List SettingValue}
    (hparts : (below.toList ++ values).length ≤ 1 ∨
      ∀ value ∈ below.toList ++ values, ∃ entries, value = table entries)
    (hdistinct : ∀ entries, table entries ∈ values → Distinct entries) (key : Text) (place : Nat) :
    (settle below values).bind (field? key place) =
      settle (below.bind (field? key place)) (values.filterMap (field? key place)) := by
  rcases hparts with hone | htables
  · rcases values with _ | ⟨value, values⟩
    · rfl
    · obtain ⟨rfl, rfl⟩ : below = none ∧ values = [] := by
        cases below <;> simp_all
      rw [settle_none_singleton, List.filterMap_cons]
      cases hfield : field? key place value <;> simp [hfield, settle_nil, settle_none_singleton]
  · obtain ⟨tables, rfl⟩ : values ∈ Set.range (List.map table) := by
      rw [Set.range_list_map]
      intro value hvalue
      obtain ⟨entries, rfl⟩ := htables value (List.mem_append_right _ hvalue)
      exact ⟨entries, rfl⟩
    rcases tables with _ | ⟨first, rest⟩
    · rfl
    · have hbelow : ∀ value ∈ below, ∃ entries, value = table entries := fun value hvalue =>
        htables value (List.mem_append_left _ (by simpa using hvalue))
      have hall : ∀ entries ∈ first :: rest, Distinct entries := fun entries hentries =>
        hdistinct entries (List.mem_map_of_mem hentries)
      obtain ⟨hfirst, hrest⟩ := List.forall_mem_cons.1 hall
      have hupper := distinct_foldl_overlayTable hfirst rest
      -- The tables make one upper table, whose fields are settled by those of the tables.
      have hsettle : settle below (List.map table (first :: rest)) =
          some (cover below (table (rest.foldl overlayTable first))) := by
        have hlowest : cover none (table first) = table first := rfl
        rw [settle, List.map_cons, List.foldl_cons, hlowest, foldl_cover_tables]
      have hkey : (rest.foldl overlayTable first).lookup key =
          ((first :: rest).filterMap (List.lookup key)).foldl
            (fun below value => some (cover below value)) none := by
        rw [lookup_foldl_overlayTable hrest, List.filterMap_cons]
        cases first.lookup key <;> rfl
      rw [hsettle, Option.bind_some, field?_cover_table below hbelow hupper, hkey, settle,
        List.filterMap_map]
      rfl

end SettingValue

end EventFinder
