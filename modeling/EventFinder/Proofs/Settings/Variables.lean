import EventFinder.Proofs.Settings.Overlay
import EventFinder.Settings.Environment

/-!
# The tables of environment variables

Each variable that holds a setting makes a table of its own, and the settings of the environment are
these tables over each other (`table_eq`). A variable has something to say of a field if it names
the field, or if it names the section and its value has the field (`fieldValue?`). A variable that
names something inside of a field puts a table in the place of the field, and nothing else
(`eq_table_or_fieldValue?`).
-/

set_option autoImplicit false

namespace EventFinder

open SettingTable (Distinct)

namespace Environment

/-- The table that a variable makes alone. -/
def variableTable (entry : Text × Text) : SettingTable :=
  match settingPath? entry.1 with
  | some (key :: path) => [(key, nested path (valueOf entry.2))]
  | _ => []

/-- What a variable says of the field of a section with the given key and place: its value if it is
named like the field, and the field in its value if it is named like the section. -/
def fieldValue? (name key : Text) (place : Nat) (entry : Text × Text) : Option SettingValue :=
  match settingPath? entry.1 with
  | some [first] => if first = name then (valueOf entry.2).field? key place else none
  | some [first, second] => if first = name ∧ second = key then some (valueOf entry.2) else none
  | _ => none

/-- A variable that holds a setting names it by one key at least. -/
theorem ne_nil_of_settingPath? {name : Text} {path : List Text}
    (h : settingPath? name = some path) : path ≠ [] := by
  obtain ⟨hpath, -⟩ := Option.filter_eq_some_iff.1 h
  obtain ⟨rest, -, rfl⟩ := Option.map_eq_some_iff.1 hpath
  exact List.splitOn_ne_nil _ _

/-- A variable is followed by putting its own table over the others. -/
theorem addVariable_eq (table : SettingTable) (entry : Text × Text) :
    addVariable table entry = SettingValue.overlayTable table (variableTable entry) := by
  unfold addVariable variableTable
  cases hpath : settingPath? entry.1 with
  | none => rfl
  | some path =>
    obtain ⟨key, rest, rfl⟩ := List.exists_cons_of_ne_nil (ne_nil_of_settingPath? hpath)
    rfl

/-- The environment in the order in which its variables are followed. -/
def inOrder (environment : Environment) : Environment :=
  environment.mergeSort fun a b => !decide (b.1 < a.1)

/-- Sorting the variables leaves none out. -/
theorem inOrder_perm (environment : Environment) : environment.inOrder.Perm environment :=
  List.mergeSort_perm _ _

/-- The settings of the environment are the tables of its variables over each other. -/
theorem table_eq (environment : Environment) :
    environment.table =
      (environment.inOrder.map variableTable).foldl SettingValue.overlayTable [] := by
  rw [List.foldl_map]
  unfold table
  congr 1
  funext table entry
  exact addVariable_eq table entry

/-- Variables that hold no setting make no table. -/
theorem table_eq_nil {environment : Environment}
    (h : ∀ entry ∈ environment, settingPath? entry.1 = none) : environment.table = [] := by
  have htables : ∀ table ∈ environment.inOrder.map variableTable, table = [] := by
    intro table htable
    obtain ⟨entry, hentry, rfl⟩ := List.mem_map.1 htable
    rw [variableTable, h entry (environment.inOrder_perm.mem_iff.1 hentry)]
  rw [table_eq, List.eq_replicate_of_mem htables]
  induction (environment.inOrder.map variableTable).length with
  | zero => rfl
  | succ count ih =>
    rw [List.replicate_succ, List.foldl_cons, SettingValue.overlayTable]
    exact ih

/-! ## No key stands twice -/

/-- The members of a value in braces come to a table without a key twice, for a later one takes
the place of an earlier one. -/
theorem distinct_of_members? {steps : Nat} {entries members : SettingTable} {text rest : Text}
    (hentries : Distinct entries) (h : members? steps entries text = some (members, rest)) :
    Distinct members := by
  induction steps generalizing entries text with
  | zero => cases h
  | succ steps ih =>
    unfold members? at h
    split at h
    · cases h
      exact hentries
    · split at h
      · split at h
        · exact ih (hentries.alter _ _) h
        · cases h
          exact hentries.alter _ _
        · cases h
      · cases h

/-- A bare word is no table. -/
theorem bareValue_ne_table (text : Text) (entries : SettingTable) :
    bareValue text ≠ .table entries := by
  unfold bareValue
  split <;> exact SettingValue.noConfusion

/-- No value of one of the forms without parts is a table. -/
theorem scalar?_ne_table {text rest : Text} {entries : SettingTable} :
    scalar? text ≠ some (.table entries, rest) := by
  intro h
  unfold scalar? at h
  split at h
  · cases h
  · split at h
    · cases h
    · split at h
      · obtain ⟨_, -, hparts⟩ := Option.map_eq_some_iff.1 h
        cases hparts
      · unfold character? at h
        split at h <;> cases h
      · simp only [Option.some.injEq, Prod.mk.injEq] at h
        exact bareValue_ne_table _ _ h.1

/-- A table that is read from a text has no key twice. -/
theorem distinct_of_value? {steps : Nat} {text rest : Text} {entries : SettingTable}
    (h : value? steps text = some (.table entries, rest)) : Distinct entries := by
  cases steps with
  | zero => cases h
  | succ steps =>
    unfold value? at h
    obtain ⟨⟨value, behind⟩, hparts, hvalue⟩ := Option.map_eq_some_iff.1 h
    simp only [skippingSpace, Prod.mk.injEq] at hvalue
    obtain ⟨rfl, -⟩ := hvalue
    split at hparts
    · obtain ⟨_, -, heq⟩ := Option.map_eq_some_iff.1 hparts
      cases heq
    · obtain ⟨_, hmembers, heq⟩ := Option.map_eq_some_iff.1 hparts
      cases heq
      exact distinct_of_members? SettingTable.distinct_nil hmembers
    · exact absurd hparts scalar?_ne_table

/-- A table that a variable holds has no key twice. -/
theorem distinct_of_valueOf {text : Text} {entries : SettingTable}
    (h : valueOf text = .table entries) : Distinct entries := by
  unfold valueOf at h
  split at h
  · rename_i value hvalue
    subst h
    exact distinct_of_value? hvalue
  · cases h

/-- The table of a variable has one key at most. -/
theorem distinct_variableTable (entry : Text × Text) : Distinct (variableTable entry) := by
  unfold variableTable
  split
  · exact SettingTable.distinct_singleton _ _
  · exact SettingTable.distinct_nil

/-- What a variable says of a section is settled key by key if it is a table. -/
theorem distinct_of_lookup_variableTable {entry : Text × Text} {name : Text}
    {entries : SettingTable} (h : (variableTable entry).lookup name = some (.table entries)) :
    Distinct entries := by
  unfold variableTable at h
  split at h
  · rename_i key path hpath
    rw [lookup_cons_eq_ite] at h
    split at h
    · have hvalue := Option.some.inj h
      cases path with
      | nil => exact distinct_of_valueOf hvalue
      | cons second path =>
        cases hvalue
        exact SettingTable.distinct_singleton _ _
    · cases h
  · cases h

/-! ## What a variable says of a field -/

/-- The table of a variable has the key that the variable names first, with what it names behind
it around its value. -/
theorem lookup_variableTable {entry : Text × Text} {first : Text} {path : List Text}
    (h : settingPath? entry.1 = some (first :: path)) (name : Text) :
    (variableTable entry).lookup name =
      if name = first then some (nested path (valueOf entry.2)) else none := by
  unfold variableTable
  rw [h]
  simp only [lookup_cons_eq_ite, List.lookup_nil]

/-- A variable that has something to say of a field says it. -/
theorem field?_variableTable_of_fieldValue? {name key : Text} {place : Nat} {entry : Text × Text}
    {value : SettingValue} (h : fieldValue? name key place entry = some value) :
    ((variableTable entry).lookup name).bind (SettingValue.field? key place) = some value := by
  unfold fieldValue? at h
  split at h
  · rename_i first hpath
    split at h
    · rename_i hfirst
      rw [lookup_variableTable hpath, if_pos hfirst.symm]
      exact h
    · cases h
  · rename_i first second hpath
    split at h
    · rename_i hpair
      obtain ⟨rfl, rfl⟩ := hpair
      rw [lookup_variableTable hpath, if_pos rfl]
      simpa [nested, SettingValue.field?] using h
    · cases h
  · cases h

/-- In the place of a field a variable has what it says of the field, or a table around what it
names inside of the field. -/
theorem eq_table_or_fieldValue? {name key : Text} {place : Nat} {entry : Text × Text}
    {value : SettingValue}
    (h : ((variableTable entry).lookup name).bind (SettingValue.field? key place) = some value) :
    (∃ entries, value = .table entries) ∨ fieldValue? name key place entry = some value := by
  cases hpath : settingPath? entry.1 with
  | none =>
    unfold variableTable at h
    rw [hpath] at h
    cases h
  | some path =>
    obtain ⟨first, rest, rfl⟩ := List.exists_cons_of_ne_nil (ne_nil_of_settingPath? hpath)
    rw [lookup_variableTable hpath] at h
    by_cases hname : name = first
    · subst hname
      rw [if_pos rfl, Option.bind_some] at h
      unfold fieldValue?
      rw [hpath]
      rcases rest with _ | ⟨second, _ | ⟨third, rest⟩⟩
      · exact .inr (by simpa [nested] using h)
      · right
        simp only [nested, List.foldr_cons, List.foldr_nil, SettingValue.field?,
          lookup_cons_eq_ite, List.lookup_nil] at h
        by_cases hkey : key = second
        · simpa [hkey] using h
        · simp [hkey] at h
      · left
        simp only [nested, List.foldr_cons, SettingValue.field?, lookup_cons_eq_ite,
          List.lookup_nil] at h
        split at h
        · exact ⟨_, (Option.some.inj h).symm⟩
        · cases h
    · rw [if_neg hname] at h
      cases h

end Environment

end EventFinder
