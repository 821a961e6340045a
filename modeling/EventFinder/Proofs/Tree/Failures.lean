import EventFinder.Proofs.Tree.Following
import EventFinder.Proofs.Tree.Walk

/-!
# Where a scan fails

Which directories a scan enters, which nodes it meets in them and at which of those it fails, said
by paths and by where they lead (`FileSystem.Enters`, `FileSystem.Meets`, `FileSystem.FailsAt`). A
place of the scan is the names that lead there from the root, through links as well. What a scan
keeps in mind on its way, such as the directories that are open and the links that may still be met,
is not used here.

A scan fails at a place in one way only (`FileSystem.FailsAt.unique`), and all directories on the
way there are entered (`FileSystem.FailsAt.enters_take`), so that nothing below an ignored directory
or a candidate matters.
-/

set_option autoImplicit false

namespace EventFinder

/-- The last of several names is joined to the path below the others. -/
theorem Path.below_concat (directory : Path) (names : List Bytes) (name : Bytes) :
    directory.below (names ++ [name]) = (directory.below names).join name := by
  rw [below, List.foldl_append]
  rfl

/-- The directory that names lead to from a root is entered if it is looked at: it is not ignored,
and it is the root or not at the level of the candidates. -/
def ScanOptions.GoesOn (options : ScanOptions) (root : Path) (names : List Bytes) : Prop :=
  options.ignore.ignores (root.below names) = false ∧
    (names = [] ∨ names.length ≠ options.depth)

namespace Node

/-- No name in the tree is longer than a name may be. -/
inductive ShortNamed : Node → Prop where
  | file (content : Bytes) : ShortNamed (.file content)
  | link (target : Path) : ShortNamed (.link target)
  | directory {entries : List (Bytes × Node)}
      (names : ∀ entry ∈ entries, entry.1.length ≤ maxNameBytes)
      (nodes : ∀ entry ∈ entries, ShortNamed entry.2) : ShortNamed (.directory entries)

/-- All names on the way to a node in a tree with short names are short. -/
theorem ShortNamed.of_at? {node found : Node} {names : List Bytes} (h : node.ShortNamed)
    (hfound : node.at? names = some found) : ∀ name ∈ names, name.length ≤ maxNameBytes := by
  induction names generalizing node with
  | nil => simp
  | cons name names ih =>
    cases h with
    | file content => cases hfound
    | link target => cases hfound
    | directory hnames hnodes =>
      simp only [at?, Option.bind_eq_some_iff] at hfound
      obtain ⟨next, hnext, hrest⟩ := hfound
      have hmem := mem_of_lookup_eq_some hnext
      exact List.forall_mem_cons.2 ⟨hnames _ hmem, ih (hnodes _ hmem) hrest⟩

end Node

namespace FileSystem

/-- The path leads to the directory with the given names from the top. -/
def LeadsTo (files : FileSystem) (path : Path) (directory : List Bytes) : Prop :=
  ∃ entries linksLeft, files.resolve path = .ok ⟨directory, .directory entries, linksLeft⟩

/-- The path leads to a directory with this entry. -/
def HasEntry (files : FileSystem) (path : Path) (name : Bytes) (node : Node) : Prop :=
  ∃ directory entries linksLeft,
    files.resolve path = .ok ⟨directory, .directory entries, linksLeft⟩ ∧
      entries.lookup name = some node

/-- The directory is one of those that lie on the way from the root along the names, the one that
all of them lead to not counted. -/
def IsOnWay (files : FileSystem) (root : Path) (names : List Bytes) (directory : List Bytes) :
    Prop :=
  ∃ k < names.length, files.LeadsTo (root.below (names.take k)) directory

/-- A scan enters the directory that the names lead to from the root. A root that is a link is
entered without a look at it, if links are not followed. -/
inductive Enters (files : FileSystem) (root : Path) (options : ScanOptions) :
    List Bytes → Prop where
  | root (hgoesOn : options.GoesOn root [] ∨
        files.isLink root = true ∧ options.followLinks = false) :
      Enters files root options []
  | directory {names : List Bytes} {name : Bytes} {entries : List (Bytes × Node)}
      (henters : Enters files root options names)
      (hentry : files.HasEntry (root.below names) name (.directory entries))
      (hgoesOn : options.GoesOn root (names ++ [name]))
      (hlength : (root.below (names ++ [name])).length ≤ maxPathBytes) :
      Enters files root options (names ++ [name])
  | link {names : List Bytes} {name : Bytes} {target : Path} {directory : List Bytes}
      (henters : Enters files root options names)
      (hentry : files.HasEntry (root.below names) name (.link target))
      (hfollowed : options.followLinks = true)
      (hleads : files.LeadsTo (root.below (names ++ [name])) directory)
      (hnew : ¬ files.IsOnWay root (names ++ [name]) directory)
      (hgoesOn : options.GoesOn root (names ++ [name])) :
      Enters files root options (names ++ [name])

/-- A scan meets the node as an entry of a directory that it enters. -/
def Meets (files : FileSystem) (root : Path) (options : ScanOptions) (names : List Bytes)
    (node : Node) : Prop :=
  ∃ before name, names = before ++ [name] ∧ files.Enters root options before ∧
    files.HasEntry (root.below before) name node

/-- A scan that comes to the names fails there. -/
inductive FailsAt (files : FileSystem) (root : Path) (options : ScanOptions) :
    List Bytes → ScanError → Prop where
  /-- A link that is followed leads nowhere. -/
  | badLink {names : List Bytes} {target : Path} {e : LookupError}
      (hmeets : files.Meets root options names (.link target))
      (hfollowed : options.followLinks = true)
      (hnowhere : files.resolve (root.below names) = .error e) :
      FailsAt files root options names (.ofLookup e (root.below names))
  /-- A link that is followed leads to a directory on the way to it. -/
  | loop {names : List Bytes} {target : Path} {directory : List Bytes}
      (hmeets : files.Meets root options names (.link target))
      (hfollowed : options.followLinks = true)
      (hleads : files.LeadsTo (root.below names) directory)
      (honWay : files.IsOnWay root names directory) :
      FailsAt files root options names (.loop (root.below names))
  /-- A directory that has to be entered has a path that cannot be followed. -/
  | longPath {names : List Bytes} {entries : List (Bytes × Node)}
      (hmeets : files.Meets root options names (.directory entries))
      (hgoesOn : options.GoesOn root names)
      (hlong : maxPathBytes < (root.below names).length) :
      FailsAt files root options names (.ofLookup .nameTooLong (root.below names))

variable {files : FileSystem} {root : Path} {options : ScanOptions} {names before : List Bytes}
  {name : Bytes} {node other : Node} {e : ScanError}

/-! ## Paths and their entries -/

/-- A path leads to one directory only. -/
theorem LeadsTo.unique {path : Path} {first second : List Bytes} (hfirst : files.LeadsTo path first)
    (hsecond : files.LeadsTo path second) : first = second := by
  obtain ⟨entries, linksLeft, hfirst⟩ := hfirst
  obtain ⟨others, linksLeft', hsecond⟩ := hsecond
  rw [hfirst] at hsecond
  cases hsecond
  rfl

/-- A name is that of one entry only. -/
theorem HasEntry.unique {path : Path} (hnode : files.HasEntry path name node)
    (hother : files.HasEntry path name other) : node = other := by
  obtain ⟨directory, entries, linksLeft, hleads, hnamed⟩ := hnode
  obtain ⟨directory', others, linksLeft', hleads', hnamed'⟩ := hother
  rw [hleads] at hleads'
  cases hleads'
  rw [hnamed] at hnamed'
  exact Option.some_inj.1 hnamed'

/-- The directories on the way to an entry are those on the way to its directory, and that one. -/
theorem isOnWay_concat_iff {directory : List Bytes} :
    files.IsOnWay root (names ++ [name]) directory ↔
      files.IsOnWay root names directory ∨ files.LeadsTo (root.below names) directory := by
  have htake : ∀ k < names.length, (names ++ [name]).take k = names.take k :=
    fun k hk => List.take_append_of_le_length hk.le
  simp only [IsOnWay, List.length_append, List.length_singleton, Nat.lt_succ_iff_lt_or_eq]
  constructor
  · rintro ⟨k, hk | rfl, hleads⟩
    · exact .inl ⟨k, hk, htake k hk ▸ hleads⟩
    · rw [List.take_left] at hleads
      exact .inr hleads
  · rintro (⟨k, hk, hleads⟩ | hleads)
    · exact ⟨k, .inl hk, (htake k hk).symm ▸ hleads⟩
    · exact ⟨names.length, .inr rfl, by rwa [List.take_left]⟩

/-- No directory lies on the way to the root. -/
theorem not_isOnWay_nil {directory : List Bytes} : ¬ files.IsOnWay root [] directory := by
  rintro ⟨k, hk, -⟩
  cases hk

section Entries

variable {path : Path} {directory : List Bytes} {entries below : List (Bytes × Node)}
  {linksLeft : Nat}

/-- An entry of the directory at the end of a path stands in the tree behind the names of the
directory. -/
theorem at?_of_lookup (hpath : files.resolve path = .ok ⟨directory, .directory entries, linksLeft⟩)
    (hnamed : entries.lookup name = some node) :
    files.top.at? (directory ++ [name]) = some node := by
  rw [Node.at?_append, at?_of_resolve hpath]
  simpa [Node.at?] using hnamed

/-- An entry of a tree with short and proper names has such a name itself. -/
theorem isName_of_lookup (htop : files.top.WellNamed) (hshort : files.top.ShortNamed)
    (hpath : files.resolve path = .ok ⟨directory, .directory entries, linksLeft⟩)
    (hnamed : entries.lookup name = some node) :
    IsName name ∧ name.length ≤ maxNameBytes := by
  have hfound := at?_of_lookup hpath hnamed
  exact ⟨(htop.of_at? hfound).2 name (by simp), hshort.of_at? hfound name (by simp)⟩

/-- The path of an entry that is a directory leads to it, if it is not too long. -/
theorem resolve_of_directory (htop : files.top.WellNamed) (hshort : files.top.ShortNamed)
    (hpath : files.resolve path = .ok ⟨directory, .directory entries, linksLeft⟩)
    (hnamed : entries.lookup name = some (.directory below))
    (hlength : (path.join name).length ≤ maxPathBytes) :
    files.resolve (path.join name) = .ok ⟨directory ++ [name], .directory below, linksLeft⟩ := by
  obtain ⟨hname, hnameLength⟩ := isName_of_lookup htop hshort hpath hnamed
  rw [resolve_join hpath rfl hname hnamed, if_neg (by omega)]

/-- The path of an entry that is a link leads where a visit follows the link to. -/
theorem resolve_of_link {target : Path} (htop : files.top.WellNamed) (hshort : files.top.ShortNamed)
    (hpath : files.resolve path = .ok ⟨directory, .directory entries, linksLeft⟩)
    (hnamed : entries.lookup name = some (.link target)) :
    files.resolve (path.join name) =
      if maxPathBytes < (path.join name).length then .error .nameTooLong
      else followLink files.top linksLeft directory target := by
  obtain ⟨hname, hnameLength⟩ := isName_of_lookup htop hshort hpath hnamed
  exact resolve_join_of_link hpath rfl hname hnameLength hnamed

end Entries

/-! ## Nodes that are met -/

/-- A scan meets an entry of a directory exactly if it enters the directory. -/
theorem meets_concat_iff : files.Meets root options (before ++ [name]) node ↔
    files.Enters root options before ∧ files.HasEntry (root.below before) name node := by
  constructor
  · rintro ⟨before', name', heq, henters, hentry⟩
    obtain ⟨rfl, hname⟩ := List.append_inj' heq rfl
    cases hname
    exact ⟨henters, hentry⟩
  · rintro ⟨henters, hentry⟩
    exact ⟨before, name, rfl, henters, hentry⟩

/-- A scan meets one node only at a place. -/
theorem Meets.unique (hnode : files.Meets root options names node)
    (hother : files.Meets root options names other) : node = other := by
  obtain ⟨before, name, rfl, -, hentry⟩ := hnode
  exact hentry.unique (meets_concat_iff.1 hother).2

/-- What is entered below the root is an entry of a directory that is entered. -/
theorem Enters.exists_meets (h : files.Enters root options names) (hne : names ≠ []) :
    ∃ node, files.Meets root options names node := by
  cases h with
  | root => exact absurd rfl hne
  | directory henters hentry => exact ⟨_, meets_concat_iff.2 ⟨henters, hentry⟩⟩
  | link henters hentry => exact ⟨_, meets_concat_iff.2 ⟨henters, hentry⟩⟩

/-- Below the root a scan enters only where it goes on. -/
theorem Enters.goesOn (h : files.Enters root options names) (hne : names ≠ []) :
    options.GoesOn root names := by
  cases h with
  | root => exact absurd rfl hne
  | directory henters hentry hgoesOn => exact hgoesOn
  | link henters hentry hfollowed hleads hnew hgoesOn => exact hgoesOn

/-- What is met lies below directories that are entered. -/
theorem Meets.of_append {rest : List Bytes}
    (h : files.Meets root options (before ++ name :: rest) node) :
    ∃ first, files.Meets root options (before ++ [name]) first := by
  induction rest using List.reverseRecOn generalizing node with
  | nil => exact ⟨node, h⟩
  | append_singleton rest last ih =>
    rw [← List.cons_append, ← List.append_assoc] at h
    obtain ⟨henters, -⟩ := meets_concat_iff.1 h
    obtain ⟨between, hbetween⟩ := henters.exists_meets (by simp)
    exact ih hbetween

/-! ## Failures at one place -/

/-- A scan fails only where it meets something. -/
theorem FailsAt.exists_meets (h : files.FailsAt root options names e) :
    ∃ node, files.Meets root options names node := by
  cases h with
  | badLink hmeets => exact ⟨_, hmeets⟩
  | loop hmeets => exact ⟨_, hmeets⟩
  | longPath hmeets => exact ⟨_, hmeets⟩

/-- A failure below a directory is one at or below an entry of it, and the directory is entered. -/
theorem FailsAt.of_append {rest : List Bytes}
    (h : files.FailsAt root options (before ++ name :: rest) e) :
    files.Enters root options before ∧ ∃ node, files.HasEntry (root.below before) name node := by
  obtain ⟨last, hlast⟩ := h.exists_meets
  obtain ⟨node, hnode⟩ := hlast.of_append
  obtain ⟨henters, hentry⟩ := meets_concat_iff.1 hnode
  exact ⟨henters, node, hentry⟩

/-- Every directory on the way to a failure is entered. -/
theorem FailsAt.enters_take (h : files.FailsAt root options names e) {k : Nat}
    (hk : k < names.length) : files.Enters root options (names.take k) := by
  rw [← List.take_append_drop k names, ← List.cons_getElem_drop_succ (h := hk)] at h
  exact h.of_append.1

/-- A scan that starts does not fail at the root itself. -/
theorem not_failsAt_nil : ¬ files.FailsAt root options [] e := by
  intro h
  obtain ⟨node, before, name, heq, -⟩ := h.exists_meets
  simp at heq

/-- A scan does not fail at a file. -/
theorem not_failsAt_of_file {content : Bytes}
    (hmeets : files.Meets root options names (.file content)) :
    ¬ files.FailsAt root options names e := by
  rintro h
  cases h with
  | badLink hlink => cases hmeets.unique hlink
  | loop hlink => cases hmeets.unique hlink
  | longPath hdirectory => cases hmeets.unique hdirectory

/-- A scan fails at a directory exactly if it goes on there and the path is too long. -/
theorem failsAt_iff_of_directory {entries : List (Bytes × Node)}
    (hmeets : files.Meets root options names (.directory entries)) :
    files.FailsAt root options names e ↔ options.GoesOn root names ∧
      maxPathBytes < (root.below names).length ∧ e = .ofLookup .nameTooLong (root.below names) := by
  constructor
  · intro h
    cases h with
    | badLink hlink => cases hmeets.unique hlink
    | loop hlink => cases hmeets.unique hlink
    | longPath hdirectory hgoesOn hlong => exact ⟨hgoesOn, hlong, rfl⟩
  · rintro ⟨hgoesOn, hlong, rfl⟩
    exact .longPath hmeets hgoesOn hlong

/-- A scan fails at a link exactly if it follows links and this one leads nowhere or back to a
directory on the way. -/
theorem failsAt_iff_of_link {target : Path}
    (hmeets : files.Meets root options names (.link target)) :
    files.FailsAt root options names e ↔ options.followLinks = true ∧
      ((∃ cause, files.resolve (root.below names) = .error cause ∧
          e = .ofLookup cause (root.below names)) ∨
        (∃ directory, files.LeadsTo (root.below names) directory ∧
          files.IsOnWay root names directory) ∧ e = .loop (root.below names)) := by
  constructor
  · intro h
    cases h with
    | badLink hlink hfollowed hnowhere => exact ⟨hfollowed, .inl ⟨_, hnowhere, rfl⟩⟩
    | loop hlink hfollowed hleads honWay => exact ⟨hfollowed, .inr ⟨⟨_, hleads, honWay⟩, rfl⟩⟩
    | longPath hdirectory => cases hmeets.unique hdirectory
  · rintro ⟨hfollowed, ⟨cause, hnowhere, rfl⟩ | ⟨⟨directory, hleads, honWay⟩, rfl⟩⟩
    · exact .badLink hmeets hfollowed hnowhere
    · exact .loop hmeets hfollowed hleads honWay

/-- A scan that does not follow links fails at directories only. -/
theorem failsAt_iff_of_not_followed (hlinks : options.followLinks = false) :
    files.FailsAt root options names e ↔
      ∃ entries, files.Meets root options names (.directory entries) ∧ options.GoesOn root names ∧
        maxPathBytes < (root.below names).length ∧
          e = .ofLookup .nameTooLong (root.below names) := by
  constructor
  · intro h
    cases h with
    | badLink _ hfollowed => simp [hlinks] at hfollowed
    | loop _ hfollowed => simp [hlinks] at hfollowed
    | longPath hmeets hgoesOn hlong => exact ⟨_, hmeets, hgoesOn, hlong, rfl⟩
  · rintro ⟨entries, hmeets, hgoesOn, hlong, rfl⟩
    exact .longPath hmeets hgoesOn hlong

/-- The error has the path on which a scan came to the place. -/
theorem FailsAt.path_eq (h : files.FailsAt root options names e) :
    e.path = some (root.below names) := by
  cases h <;> rfl

/-- The error is a loop exactly at a link to a directory on the way. -/
theorem FailsAt.kind_eq_loop_iff (h : files.FailsAt root options names e) :
    e.kind = .loop ↔ ∃ directory, files.LeadsTo (root.below names) directory ∧
      files.IsOnWay root names directory := by
  have hkind (cause : LookupError) (path : Path) :
      (ScanError.ofLookup cause path).kind ≠ .loop := by
    cases cause <;> exact nofun
  cases h with
  | badLink _ _ hnowhere =>
    refine ⟨fun hloop => absurd hloop (hkind _ _), ?_⟩
    rintro ⟨directory, ⟨entries, linksLeft, hleads⟩, -⟩
    rw [hnowhere] at hleads
    cases hleads
  | loop _ _ hleads honWay => exact ⟨fun _ => ⟨_, hleads, honWay⟩, fun _ => rfl⟩
  | longPath _ _ hlong =>
    refine ⟨fun hloop => absurd hloop (hkind _ _), ?_⟩
    rintro ⟨directory, ⟨entries, linksLeft, hleads⟩, -⟩
    have := length_le_of_resolve hleads
    omega

section Links

variable {target : Path} {directory : List Bytes} {place : Place}

/-- The error at a link that leads nowhere is that of its path. -/
theorem FailsAt.eq_of_nowhere {cause : LookupError} (h : files.FailsAt root options names e)
    (hmeets : files.Meets root options names (.link target))
    (hpath : files.resolve (root.below names) = .error cause) :
    e = .ofLookup cause (root.below names) := by
  obtain ⟨-, ⟨other, hother, rfl⟩ | ⟨⟨directory, ⟨entries, linksLeft, hleads⟩, -⟩, rfl⟩⟩ :=
    (failsAt_iff_of_link hmeets).1 h
  · rw [hpath] at hother
    cases hother
    rfl
  · rw [hpath] at hleads
    cases hleads

/-- A scan fails at a link that leads somewhere only if that is a directory on the way. -/
theorem FailsAt.loop_of_resolve (h : files.FailsAt root options names e)
    (hmeets : files.Meets root options names (.link target))
    (hpath : files.resolve (root.below names) = .ok place) :
    (∃ directory, files.LeadsTo (root.below names) directory ∧
      files.IsOnWay root names directory) ∧ e = .loop (root.below names) := by
  obtain ⟨-, ⟨cause, hnowhere, -⟩ | hloop⟩ := (failsAt_iff_of_link hmeets).1 h
  · rw [hpath] at hnowhere
    cases hnowhere
  · exact hloop

end Links

/-- A scan fails at a place with one error only. -/
theorem FailsAt.unique {first second : ScanError} (hfirst : files.FailsAt root options names first)
    (hsecond : files.FailsAt root options names second) : first = second := by
  obtain ⟨node, hmeets⟩ := hfirst.exists_meets
  cases node with
  | file content => exact absurd hfirst (not_failsAt_of_file hmeets)
  | directory entries =>
    rw [((failsAt_iff_of_directory hmeets).1 hfirst).2.2,
      ((failsAt_iff_of_directory hmeets).1 hsecond).2.2]
  | link target =>
    cases hpath : files.resolve (root.below names) with
    | error cause => rw [hfirst.eq_of_nowhere hmeets hpath, hsecond.eq_of_nowhere hmeets hpath]
    | ok place =>
      rw [(hfirst.loop_of_resolve hmeets hpath).2, (hsecond.loop_of_resolve hmeets hpath).2]

/-! ## Entering one place -/

/-- A scan enters the root if it goes on there, or if the root is a link and links are not
followed. -/
theorem enters_nil_iff : files.Enters root options [] ↔
    options.GoesOn root [] ∨ files.isLink root = true ∧ options.followLinks = false := by
  refine ⟨fun h => ?_, .root⟩
  generalize hnil : ([] : List Bytes) = names at h
  cases h with
  | root hgoesOn => exact hgoesOn
  | directory => simp at hnil
  | link => simp at hnil

/-- A scan does not enter a file. -/
theorem not_enters_of_file {content : Bytes}
    (hmeets : files.Meets root options names (.file content)) :
    ¬ files.Enters root options names := by
  intro h
  cases h with
  | root =>
    obtain ⟨before, name, heq, -⟩ := hmeets
    simp at heq
  | directory _ hentry => cases (meets_concat_iff.1 hmeets).2.unique hentry
  | link _ hentry => cases (meets_concat_iff.1 hmeets).2.unique hentry

/-- A scan enters a directory that it meets exactly if it goes on there and the path is not too
long. -/
theorem enters_iff_of_directory {entries : List (Bytes × Node)}
    (hmeets : files.Meets root options names (.directory entries)) :
    files.Enters root options names ↔
      options.GoesOn root names ∧ (root.below names).length ≤ maxPathBytes := by
  constructor
  · intro h
    cases h with
    | root =>
      obtain ⟨before, name, heq, -⟩ := hmeets
      simp at heq
    | directory _ _ hgoesOn hlength => exact ⟨hgoesOn, hlength⟩
    | link _ hentry => cases (meets_concat_iff.1 hmeets).2.unique hentry
  · rintro ⟨hgoesOn, hlength⟩
    obtain ⟨before, name, rfl, henters, hentry⟩ := hmeets
    exact .directory henters hentry hgoesOn hlength

/-- A scan enters a link that it meets exactly if it follows links, goes on there, and the link
leads to a directory that is not on the way. -/
theorem enters_iff_of_link {target : Path}
    (hmeets : files.Meets root options names (.link target)) :
    files.Enters root options names ↔ options.followLinks = true ∧ options.GoesOn root names ∧
      ∃ directory, files.LeadsTo (root.below names) directory ∧
        ¬ files.IsOnWay root names directory := by
  constructor
  · intro h
    cases h with
    | root =>
      obtain ⟨before, name, heq, -⟩ := hmeets
      simp at heq
    | directory _ hentry => cases (meets_concat_iff.1 hmeets).2.unique hentry
    | link _ _ hfollowed hleads hnew hgoesOn => exact ⟨hfollowed, hgoesOn, _, hleads, hnew⟩
  · rintro ⟨hfollowed, hgoesOn, directory, hleads, hnew⟩
    obtain ⟨before, name, rfl, henters, hentry⟩ := hmeets
    exact .link henters hentry hfollowed hleads hnew hgoesOn

/-! ## Links that lead somewhere -/

section Links

variable {target : Path} {directory : List Bytes} {place : Place}

/-- A link to something else than a directory is passed over. -/
theorem passedOver_of_link (hmeets : files.Meets root options names (.link target))
    (hpath : files.resolve (root.below names) = .ok place)
    (hnode : place.node.isDirectory = false) :
    (∀ e, ¬ files.FailsAt root options names e) ∧ ¬ files.Enters root options names := by
  have hnowhere : ∀ directory, ¬ files.LeadsTo (root.below names) directory := by
    rintro directory ⟨entries, linksLeft, hleads⟩
    rw [hpath] at hleads
    cases hleads
    cases hnode
  constructor
  · intro e hfails
    obtain ⟨⟨directory, hleads, -⟩, -⟩ := hfails.loop_of_resolve hmeets hpath
    exact hnowhere directory hleads
  · intro henters
    obtain ⟨-, -, directory, hleads, -⟩ := (enters_iff_of_link hmeets).1 henters
    exact hnowhere directory hleads

/-- At a link to a directory that is not on the way a scan does not fail. -/
theorem not_failsAt_of_new_link (hmeets : files.Meets root options names (.link target))
    (hleads : files.LeadsTo (root.below names) directory)
    (hnew : ¬ files.IsOnWay root names directory) : ¬ files.FailsAt root options names e := by
  intro hfails
  obtain ⟨entries, linksLeft, hpath⟩ := hleads
  obtain ⟨⟨other, hother, honWay⟩, -⟩ := hfails.loop_of_resolve hmeets hpath
  exact hnew (hother.unique ⟨entries, linksLeft, hpath⟩ ▸ honWay)

end Links

end FileSystem

end EventFinder
