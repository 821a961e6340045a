import EventFinder.Proofs.Settings.Variables
import EventFinder.Settings.Load

/-!
# Layers of settings

Settings come from the command line, the environment, the settings file and the defaults, and every
field of them is settled by itself: it is what the uppermost of these says that says anything of it
(`ResolvedBy`). That is so as long as a section for which both the file and variables have
something to say, or several variables, is said in tables (`SaidInParts`). A section can also be a
list of its fields in their order, and such a section is not settled by fields: it takes the place
of the whole section below it, and is lost under a table.

The main statement is `load_resolves`.
-/

set_option autoImplicit false

namespace EventFinder

open SettingTable (Distinct)

/-- The fields of the settings. -/
inductive SettingField where
  | root | pattern | includeParent | ignoreDirs | strictNumeric | dateFromExif
  | format | colorEnabled
  deriving DecidableEq, Repr

namespace SettingField

/-- The key of the section that a field belongs to. -/
def sectionKey : SettingField → Text
  | format | colorEnabled => "output".toList
  | _ => "images".toList

/-- The key of a field in its section. -/
def key : SettingField → Text
  | root => "rootdir".toList
  | pattern => "pattern".toList
  | includeParent => "include_parent".toList
  | ignoreDirs => "ignore_dirs".toList
  | strictNumeric => "strict_numeric".toList
  | dateFromExif => "date_from_exif".toList
  | format => "format".toList
  | colorEnabled => "color_enabled".toList

/-- The place of a field in a section that is a list. -/
def place : SettingField → Nat
  | root | format => 0
  | pattern | colorEnabled => 1
  | includeParent => 2
  | ignoreDirs => 3
  | strictNumeric => 4
  | dateFromExif => 5

/-- What a table of settings says of a field. -/
def ofTable? (field : SettingField) (table : SettingTable) : Option SettingValue :=
  (table.lookup field.sectionKey).bind (SettingValue.field? field.key field.place)

/-- What a variable says of a field. -/
def ofVariable? (field : SettingField) (entry : Text × Text) : Option SettingValue :=
  Environment.fieldValue? field.sectionKey field.key field.place entry

/-- What is said of a field: what a variable says of it, and if none does, the settings file. -/
def said? (stored : SettingTable) (environment : Environment) (field : SettingField) :
    Option SettingValue :=
  (environment.findSome? field.ofVariable?).or (field.ofTable? stored)

end SettingField

/-- What the settings file and the variables say of a section, one after the other. -/
def sectionValues (stored : SettingTable) (environment : Environment) (name : Text) :
    List SettingValue :=
  (stored.lookup name).toList ++
    environment.filterMap fun entry => (Environment.variableTable entry).lookup name

/-- A section that is said once, or else in tables only. -/
def SaidInParts (stored : SettingTable) (environment : Environment) (name : Text) : Prop :=
  (sectionValues stored environment name).length ≤ 1 ∨
    ∀ value ∈ sectionValues stored environment name, ∃ entries, value = .table entries

/-- The form of the value is looked at. -/
instance (value : SettingValue) : Decidable (∃ entries, value = .table entries) :=
  match value with
  | .table entries => isTrue ⟨entries, rfl⟩
  | .text _ | .flag _ | .number | .list _ => isFalse fun ⟨_, h⟩ => SettingValue.noConfusion h

/-- Both ways to say a section are tested. -/
instance (stored : SettingTable) (environment : Environment) (name : Text) :
    Decidable (SaidInParts stored environment name) :=
  inferInstanceAs (Decidable (_ ∨ _))

/-- No two variables have something to say of one field. -/
def Environment.SaysOnce (environment : Environment) : Prop :=
  ∀ field : SettingField, ∀ entry ∈ environment, ∀ other ∈ environment,
    (field.ofVariable? entry).isSome → (field.ofVariable? other).isSome → entry = other

/-- A variable alone has no other one that it could contradict. -/
theorem Environment.saysOnce_singleton (entry : Text × Text) :
    Environment.SaysOnce [entry] := by
  intro field first hfirst other hother _ _
  rw [List.mem_singleton.1 hfirst, List.mem_singleton.1 hother]

/-- A field is what is given for it, if anything is, and else what is said of it, if that is
anything, and else its default. -/
def IsFrom {α : Type} (kind : SettingValue → Option α) (default : α) (given : Option α)
    (said : Option SettingValue) (x : α) : Prop :=
  match given, said with
  | some y, _ => x = y
  | none, some value => kind value = some x
  | none, none => x = default

/-- Settings in which each field is what the command line gives for it, or else what is said of it,
or else its default. A switch gives nothing but that a setting is on. -/
structure ResolvedBy (changes : Overrides) (said : SettingField → Option SettingValue)
    (settings : Settings) : Prop where
  root : IsFrom SettingValue.path? [dot] changes.root (said .root) settings.images.root
  pattern : IsFrom SettingValue.text? [] changes.pattern (said .pattern) settings.images.pattern
  includeParent : IsFrom SettingValue.flag? false
    (if changes.includeParent then some true else none)
    (said .includeParent) settings.images.includeParent
  ignoreDirs : IsFrom SettingValue.texts? []
    (changes.ignoreDirs.map fun list => (list.splitOn ',').filter (· ≠ []))
    (said .ignoreDirs) settings.images.ignoreDirs
  strictNumeric : IsFrom SettingValue.flag? false
    (if changes.strictNumeric then some true else none)
    (said .strictNumeric) settings.images.strictNumeric
  dateFromExif : IsFrom SettingValue.flag? false
    (if changes.dateFromExif then some true else none)
    (said .dateFromExif) settings.images.dateFromExif
  format : IsFrom SettingValue.format? .text changes.format (said .format) settings.output.format
  colorEnabled : IsFrom SettingValue.flag? true none (said .colorEnabled)
    settings.output.colorEnabled

/-! ## The loaded table -/

section Loaded

variable {stored : SettingTable} {environment : Environment}

/-- A section that is said in tables or once is settled field by field, in the order in which the
variables are followed. -/
theorem ofTable?_loaded (field : SettingField)
    (hparts : SaidInParts stored environment field.sectionKey) :
    field.ofTable? (SettingValue.overlayTable stored environment.table) =
      SettingValue.settle (field.ofTable? stored)
        (environment.inOrder.filterMap fun entry =>
          field.ofTable? (Environment.variableTable entry)) := by
  have hperm := environment.inOrder_perm.filterMap
    fun entry => (Environment.variableTable entry).lookup field.sectionKey
  have hdistinct : ∀ table ∈ environment.inOrder.map Environment.variableTable,
      Distinct table := by
    intro table htable
    obtain ⟨entry, -, rfl⟩ := List.mem_map.1 htable
    exact Environment.distinct_variableTable entry
  have hvalues : ∀ entries, SettingValue.table entries ∈
      environment.inOrder.filterMap
        (fun entry => (Environment.variableTable entry).lookup field.sectionKey) →
      Distinct entries := by
    intro entries hentries
    obtain ⟨entry, -, hentry⟩ := List.mem_filterMap.1 hentries
    exact Environment.distinct_of_lookup_variableTable hentry
  unfold SettingField.ofTable?
  rw [Environment.table_eq, SettingValue.lookup_overlayTable_foldl hdistinct, List.filterMap_map,
    Function.comp_def, SettingValue.field?_settle ?_ hvalues, List.filterMap_filterMap]
  rcases hparts with hone | htables
  · left
    have hlength := (hperm.append_left (stored.lookup field.sectionKey).toList).length_eq
    exact hlength ▸ hone
  · right
    intro value hvalue
    exact htables value ((hperm.append_left _).mem_iff.1 hvalue)

/-- Where no variable has anything in the place of a field, the settings file says what is said. -/
theorem said?_of_no_variable (field : SettingField)
    (hnone : (environment.inOrder.filterMap fun entry =>
      field.ofTable? (Environment.variableTable entry)) = []) :
    field.said? stored environment = field.ofTable? stored := by
  have hvariables : environment.findSome? field.ofVariable? = none := by
    rw [List.findSome?_eq_none_iff]
    intro entry hentry
    by_contra hsaid
    obtain ⟨value, hvalue⟩ := Option.ne_none_iff_exists'.1 hsaid
    have hplace : field.ofTable? (Environment.variableTable entry) = none :=
      List.filterMap_eq_nil_iff.1 hnone entry (environment.inOrder_perm.mem_iff.2 hentry)
    rw [SettingField.ofTable?, Environment.field?_variableTable_of_fieldValue? hvalue] at hplace
    cases hplace
  rw [SettingField.said?, hvariables, Option.none_or]

/-- The only variable that says anything of a field decides what is said of it. -/
theorem said?_of_variable (field : SettingField) (honce : environment.SaysOnce)
    {entry : Text × Text} (hentry : entry ∈ environment) {value : SettingValue}
    (hvalue : field.ofVariable? entry = some value) :
    field.said? stored environment = some value := by
  have hsome : (environment.findSome? field.ofVariable?).isSome := by
    rw [List.findSome?_isSome_iff]
    exact ⟨entry, hentry, by rw [hvalue]; rfl⟩
  obtain ⟨first, hfirst⟩ := Option.isSome_iff_exists.1 hsome
  obtain ⟨other, hother, hsaid⟩ := List.exists_of_findSome?_eq_some hfirst
  have heq : entry = other :=
    honce field entry hentry other hother (by rw [hvalue]; rfl) (by rw [hsaid]; rfl)
  subst heq
  rw [SettingField.said?, hfirst, Option.some_or, ← hsaid, hvalue]

/-- What is said of a field is what the loaded table has for it, unless that is a table. -/
theorem said?_eq_loaded (field : SettingField) (honce : environment.SaysOnce)
    (hparts : SaidInParts stored environment field.sectionKey)
    (htable : ∀ entries, field.ofTable? (SettingValue.overlayTable stored environment.table) ≠
      some (.table entries)) :
    field.said? stored environment =
      field.ofTable? (SettingValue.overlayTable stored environment.table) := by
  rw [ofTable?_loaded field hparts] at htable ⊢
  generalize hloaded : SettingValue.settle (field.ofTable? stored)
    (environment.inOrder.filterMap fun entry =>
      field.ofTable? (Environment.variableTable entry)) = loaded at htable ⊢
  cases loaded with
  | none =>
    obtain ⟨hnone, hstored⟩ := SettingValue.settle_eq_none hloaded
    rw [said?_of_no_variable field hnone, hstored]
  | some value =>
    have hvalue : ∀ entries, value ≠ .table entries := fun entries heq =>
      htable entries (congrArg some heq)
    rcases SettingValue.eq_of_settle hloaded hvalue with hlast | ⟨hnone, hstored⟩
    · obtain ⟨entry, hentry, hplace⟩ := List.mem_filterMap.1 (List.mem_of_getLast? hlast)
      rcases Environment.eq_table_or_fieldValue? hplace with ⟨entries, heq⟩ | hsaid
      · exact absurd heq (hvalue entries)
      · exact said?_of_variable field honce (environment.inOrder_perm.mem_iff.1 hentry) hsaid
    · rw [said?_of_no_variable field hnone, hstored]

end Loaded

/-! ## Reading the loaded table -/

section Reading

variable {α : Type} {kind : SettingValue → Option α} {default x : α}

/-- A field that is read from a section is what the section says of it, or its default. -/
theorem isFrom_of_read? {key : String} {place : Nat} {stored : SettingValue}
    (h : stored.read? kind key place default = some x) :
    IsFrom kind default none (stored.field? key.toList place) x := by
  unfold SettingValue.read? at h
  unfold IsFrom
  cases hfield : stored.field? key.toList place with
  | some value =>
    rw [hfield] at h
    exact h
  | none =>
    rw [hfield] at h
    exact (Option.some.inj h).symm

/-- A field that was read from no table is the same by anything that says the same but for tables.
-/
theorem IsFrom.of_said {said other : Option SettingValue} (h : IsFrom kind default none said x)
    (hkind : ∀ entries, kind (.table entries) = none)
    (hother : (∀ entries, said ≠ some (.table entries)) → other = said) :
    IsFrom kind default none other x := by
  have htable : ∀ entries, said ≠ some (.table entries) := by
    rintro entries rfl
    rw [IsFrom, hkind] at h
    cases h
  rw [hother htable]
  exact h

/-- What is given takes the place of what a field is without it. -/
theorem IsFrom.getD {said : Option SettingValue} (h : IsFrom kind default none said x)
    (given : Option α) : IsFrom kind default given said (given.getD x) := by
  cases given with
  | none => exact h
  | some y => rfl

end Reading

/-- Each field of the images is what the section says of it, or its default, and all of them are
their defaults if there is no section. -/
theorem isFrom_of_images {said : Option SettingValue} {images : ImageSettings}
    (h : IsFrom ImageSettings.ofStored? {} none said images) :
    IsFrom SettingValue.path? [dot] none
        (said.bind (SettingValue.field? "rootdir".toList 0)) images.root ∧
      IsFrom SettingValue.text? [] none
        (said.bind (SettingValue.field? "pattern".toList 1)) images.pattern ∧
      IsFrom SettingValue.flag? false none
        (said.bind (SettingValue.field? "include_parent".toList 2)) images.includeParent ∧
      IsFrom SettingValue.texts? [] none
        (said.bind (SettingValue.field? "ignore_dirs".toList 3)) images.ignoreDirs ∧
      IsFrom SettingValue.flag? false none
        (said.bind (SettingValue.field? "strict_numeric".toList 4)) images.strictNumeric ∧
      IsFrom SettingValue.flag? false none
        (said.bind (SettingValue.field? "date_from_exif".toList 5)) images.dateFromExif := by
  cases said with
  | none =>
    subst h
    exact ⟨rfl, rfl, rfl, rfl, rfl, rfl⟩
  | some value =>
    simp only [IsFrom, ImageSettings.ofStored?, Option.bind_eq_bind, Option.bind_eq_some_iff] at h
    obtain ⟨root, hroot, pattern, hpattern, includeParent, hparent, ignoreDirs, hignore,
      strictNumeric, hstrict, dateFromExif, hdate, hsection⟩ := h
    split at hsection
    · cases hsection
      exact ⟨isFrom_of_read? hroot, isFrom_of_read? hpattern, isFrom_of_read? hparent,
        isFrom_of_read? hignore, isFrom_of_read? hstrict, isFrom_of_read? hdate⟩
    · cases hsection

/-- Each field of the output is what the section says of it, or its default, and both are their
defaults if there is no section. -/
theorem isFrom_of_output {said : Option SettingValue} {output : OutputSettings}
    (h : IsFrom OutputSettings.ofStored? {} none said output) :
    IsFrom SettingValue.format? .text none
        (said.bind (SettingValue.field? "format".toList 0)) output.format ∧
      IsFrom SettingValue.flag? true none
        (said.bind (SettingValue.field? "color_enabled".toList 1)) output.colorEnabled := by
  cases said with
  | none =>
    subst h
    exact ⟨rfl, rfl⟩
  | some value =>
    simp only [IsFrom, OutputSettings.ofStored?, Option.bind_eq_bind, Option.bind_eq_some_iff] at h
    obtain ⟨format, hformat, colorEnabled, hcolor, hsection⟩ := h
    split at hsection
    · cases hsection
      exact ⟨isFrom_of_read? hformat, isFrom_of_read? hcolor⟩
    · cases hsection

/-- Settings that are read from a table have their fields from there or by default. -/
theorem resolvedBy_ofTable? {table : SettingTable} {settings : Settings}
    (h : Settings.ofTable? table = some settings) :
    ResolvedBy {} (fun field => field.ofTable? table) settings := by
  simp only [Settings.ofTable?, Option.bind_eq_bind, Option.bind_eq_some_iff,
    Option.some.injEq] at h
  obtain ⟨images, himages, output, houtput, rfl⟩ := h
  obtain ⟨hroot, hpattern, hparent, hignore, hstrict, hdate⟩ :=
    isFrom_of_images (isFrom_of_read? himages)
  obtain ⟨hformat, hcolor⟩ := isFrom_of_output (isFrom_of_read? houtput)
  exact ⟨hroot, hpattern, hparent, hignore, hstrict, hdate, hformat, hcolor⟩

/-- Settings that are resolved by what a table says are resolved by whatever says the same but for
tables, since no field is one. -/
theorem ResolvedBy.of_said {said other : SettingField → Option SettingValue} {settings : Settings}
    (h : ResolvedBy {} said settings)
    (hother : ∀ field, (∀ entries, said field ≠ some (.table entries)) → other field = said field) :
    ResolvedBy {} other settings where
  root := h.root.of_said (fun _ => rfl) (hother _)
  pattern := h.pattern.of_said (fun _ => rfl) (hother _)
  includeParent := h.includeParent.of_said (fun _ => rfl) (hother _)
  ignoreDirs := h.ignoreDirs.of_said (fun _ => rfl) (hother _)
  strictNumeric := h.strictNumeric.of_said (fun _ => rfl) (hother _)
  dateFromExif := h.dateFromExif.of_said (fun _ => rfl) (hother _)
  format := h.format.of_said (fun _ => rfl) (hother _)
  colorEnabled := h.colorEnabled.of_said (fun _ => rfl) (hother _)

/-- A switch turns a setting on, or leaves it as it is. -/
theorem IsFrom.switch {default x : Bool} {said : Option SettingValue}
    (h : IsFrom SettingValue.flag? default none said x) (given : Bool) :
    IsFrom SettingValue.flag? default (if given then some true else none) said (x || given) := by
  cases given with
  | true =>
    rw [Bool.or_true]
    exact h.getD (some true)
  | false =>
    rw [Bool.or_false]
    exact h

/-- What the command line gives takes the place of what was configured. -/
theorem ResolvedBy.override {said : SettingField → Option SettingValue} {settings : Settings}
    (h : ResolvedBy {} said settings) (changes : Overrides) :
    ResolvedBy changes said (settings.override changes) where
  root := h.root.getD _
  pattern := h.pattern.getD _
  includeParent := h.includeParent.switch _
  ignoreDirs := by
    unfold Settings.override
    cases changes.ignoreDirs with
    | none => exact h.ignoreDirs
    | some list => exact h.ignoreDirs.getD (some ((list.splitOn ',').filter (· ≠ [])))
  strictNumeric := h.strictNumeric.switch _
  dateFromExif := h.dateFromExif.switch _
  format := h.format.getD _
  colorEnabled := h.colorEnabled

/-! ## Loaded settings -/

namespace Settings

/-- The table that the settings file holds. Without a file there is nothing in it. -/
def storedTable? (file : Option Bytes) : Option SettingTable :=
  file.elim (some []) fileTable?

/-- Settings are loaded from the table of the environment over that of the file. -/
theorem load?_eq (file : Option Bytes) (environment : Environment) :
    load? file environment = (storedTable? file).bind fun stored =>
      ofTable? (SettingValue.overlayTable stored environment.table) := by
  cases file <;> rfl

/-- Loaded settings that the command line changes have every field from the uppermost layer that
says anything of it: the command line, the variable that names it, the settings file, the defaults.
What another layer says of another field of the same section does not matter. A list of ignored
parts that the command line gives is split at its commas, and the settings then ignore its parts
that are not empty, and no others. -/
theorem load_resolves {file : Option Bytes} {environment : Environment} {stored : SettingTable}
    {settings : Settings} (hstored : storedTable? file = some stored)
    (hload : load? file environment = some settings) (honce : environment.SaysOnce)
    (hparts : ∀ field : SettingField, SaidInParts stored environment field.sectionKey)
    (changes : Overrides) :
    ResolvedBy changes (SettingField.said? stored environment) (settings.override changes) ∧
      ∀ list, changes.ignoreDirs = some list →
        (settings.override changes).images.ignoreDirs = (list.splitOn ',').filter (· ≠ []) ∧
        (settings.override changes).ignoreList.entries = (list.splitOn ',').filter (· ≠ []) := by
  rw [load?_eq, hstored, Option.bind_some] at hload
  have hresolved : ResolvedBy {} (SettingField.said? stored environment) settings := by
    refine (resolvedBy_ofTable? hload).of_said fun field htable => ?_
    exact said?_eq_loaded field honce (hparts field) htable
  have hoverridden := hresolved.override changes
  refine ⟨hoverridden, fun list hlist => ?_⟩
  have hignored : (settings.override changes).images.ignoreDirs =
      (list.splitOn ',').filter (· ≠ []) := by
    have hignore := hoverridden.ignoreDirs
    rw [hlist] at hignore
    exact hignore
  refine ⟨hignored, ?_⟩
  rw [ignoreList, hignored]
  simp [IgnoreList.ofEntries]

/-- The file has the root, a variable the pattern and the command line the ignored parts. The root
stays although the variable is about the same section. -/
theorem load_resolves_of_three_layers :
    let file := Text.toBytes "[images]\nrootdir = \"/srv\"\n".toList
    let environment : Environment := [("GIGCAL_IMAGES__PATTERN".toList, "%V".toList)]
    let changes : Overrides := { ignoreDirs := some "tmp,,raw".toList }
    ∃ stored settings, storedTable? (some file) = some stored ∧
      load? (some file) environment = some settings ∧ environment.SaysOnce ∧
      (∀ field : SettingField, SaidInParts stored environment field.sectionKey) ∧
      ResolvedBy changes (SettingField.said? stored environment) (settings.override changes) ∧
      settings.override changes = {
        images := {
          root := Text.toBytes "/srv".toList
          pattern := "%V".toList
          ignoreDirs := ["tmp".toList, "raw".toList] } } := by
  intro file environment changes
  obtain ⟨stored, hstored⟩ : ∃ stored, storedTable? (some file) = some stored :=
    Option.isSome_iff_exists.1 (by decide +kernel)
  obtain ⟨settings, hload⟩ : ∃ settings, load? (some file) environment = some settings :=
    Option.isSome_iff_exists.1 (by decide +kernel)
  have honce : environment.SaysOnce := Environment.saysOnce_singleton _
  have hparts : ∀ field : SettingField, SaidInParts stored environment field.sectionKey := by
    have hsections : ∀ table ∈ storedTable? (some file),
        SaidInParts table environment "images".toList ∧
          SaidInParts table environment "output".toList := by decide +kernel
    obtain ⟨himages, houtput⟩ := hsections stored hstored
    intro field
    cases field with
    | format => exact houtput
    | colorEnabled => exact houtput
    | _ => exact himages
  have hsettings : ∀ loaded ∈ load? (some file) environment, loaded.override changes = {
      images := {
        root := Text.toBytes "/srv".toList
        pattern := "%V".toList
        ignoreDirs := ["tmp".toList, "raw".toList] } } := by decide +kernel
  exact ⟨stored, settings, hstored, hload, honce, hparts,
    (load_resolves hstored hload honce hparts changes).1, hsettings settings hload⟩

/-- A section that the file has as a list is lost as a whole when a variable says one field of it:
the root is the default one, although the file says another and nothing above the file says any. -/
theorem not_resolvedBy_of_list_section :
    let file := Text.toBytes "images = [\"/srv\"]\n".toList
    let environment : Environment := [("GIGCAL_IMAGES__PATTERN".toList, "%V".toList)]
    ∃ stored settings, storedTable? (some file) = some stored ∧
      load? (some file) environment = some settings ∧ environment.SaysOnce ∧
      (SettingField.root.ofTable? stored).bind SettingValue.path? =
        some (Text.toBytes "/srv".toList) ∧
      settings.images.root = [dot] ∧
      ¬ ResolvedBy {} (SettingField.said? stored environment) (settings.override {}) := by
  intro file environment
  obtain ⟨stored, hstored⟩ : ∃ stored, storedTable? (some file) = some stored :=
    Option.isSome_iff_exists.1 (by decide +kernel)
  obtain ⟨settings, hload⟩ : ∃ settings, load? (some file) environment = some settings :=
    Option.isSome_iff_exists.1 (by decide +kernel)
  have hroot : ∀ loaded ∈ load? (some file) environment, loaded.images.root = [dot] := by
    decide +kernel
  have hfile : ∀ table ∈ storedTable? (some file),
      (SettingField.root.ofTable? table).bind SettingValue.path? =
        some (Text.toBytes "/srv".toList) := by decide +kernel
  have hvariables : environment.findSome? SettingField.root.ofVariable? = none :=
    Option.isNone_iff_eq_none.1 (by decide +kernel)
  refine ⟨stored, settings, hstored, hload, Environment.saysOnce_singleton _, hfile stored hstored,
    hroot settings hload, fun hresolved => ?_⟩
  have hfrom := hresolved.root
  have hstoredRoot := hfile stored hstored
  obtain ⟨value, hvalue, hpath⟩ := Option.bind_eq_some_iff.1 hstoredRoot
  rw [override_empty, hroot settings hload, SettingField.said?, hvariables, Option.none_or,
    hvalue] at hfrom
  have hdot : some (Text.toBytes "/srv".toList) = some [dot] := hpath.symm.trans hfrom
  revert hdot
  decide

end Settings

end EventFinder
