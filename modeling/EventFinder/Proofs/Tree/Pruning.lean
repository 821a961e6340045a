import EventFinder.Proofs.Text.Decoding
import EventFinder.Proofs.Text.Occurrence
import EventFinder.Proofs.Tree.Directories
import EventFinder.Tree.Scan

/-!
# Pruning

A scan does not enter an ignored directory. As the text of a directory is a beginning of the text
of everything in it (`Path.shown_prefix_below`), nothing is lost by that which would not be left out
anyway. `ScanOptions.selected` is what there is to find in a list of directories, said without a
walk, and `ScanOptions.Followable` is the condition under which a walk can find it. The lemmas here
take both apart in the way in which a walk goes through a tree.
-/

set_option autoImplicit false

namespace EventFinder

/-! ## Paths below a directory -/

namespace Path

/-- The path that names lead to from a directory. -/
def below (directory : Path) (names : List Bytes) : Path :=
  names.foldl join directory

/-- Without names the path stays as it is. -/
@[simp] theorem below_nil (directory : Path) : directory.below [] = directory :=
  rfl

/-- The first name is joined before the others. -/
@[simp] theorem below_cons (directory : Path) (name : Bytes) (names : List Bytes) :
    directory.below (name :: names) = (directory.join name).below names :=
  rfl

/-- The text of a directory is a beginning of the texts of its entries. -/
theorem shown_prefix_join (directory name : Path) :
    directory.shown <+: (directory.join name).shown := by
  unfold join
  split_ifs with h
  · obtain rfl | hslash := h
    · exact List.nil_prefix
    · -- The last slash of the directory is a place where decoding starts anew.
      obtain ⟨before, rfl⟩ := List.getLast?_eq_some_iff.1 (eq_of_beq hslash)
      rw [List.append_assoc, List.singleton_append, shown, shown, Bytes.toText_append_slash,
        Bytes.toText_append_slash]
      exact ⟨Bytes.toText name, by simp [show Bytes.toText [] = [] from rfl]⟩
  · rw [shown, shown, Bytes.toText_append_slash]
    exact List.prefix_append _ _

/-- The text of a directory begins the text of everything below it. -/
theorem shown_prefix_below (directory : Path) (names : List Bytes) :
    directory.shown <+: (directory.below names).shown := by
  induction names generalizing directory with
  | nil => exact List.prefix_rfl
  | cons name names ih => exact (shown_prefix_join directory name).trans (ih _)

/-- The text of the path contains one of the entries, the empty one not counted. -/
def Mentions (path : Path) (entries : List Text) : Prop :=
  ∃ entry ∈ entries, entry ≠ [] ∧ entry <:+: path.shown

/-- All entries are tested. -/
instance (path : Path) (entries : List Text) : Decidable (path.Mentions entries) :=
  inferInstanceAs (Decidable (∃ entry ∈ entries, _))

/-- No path mentions one of no entries. -/
@[simp] theorem not_mentions_nil (path : Path) : ¬ path.Mentions [] := by
  simp [Mentions]

end Path

namespace IgnoreList

/-- A path is ignored if it mentions an entry. -/
theorem ignores_ofEntries_iff {entries : List Text} {path : Path} :
    (ofEntries entries).ignores path = true ↔ path.Mentions entries := by
  simp only [ignores, firstMatch?, ofEntries, List.find?_isSome, List.mem_filter,
    Text.holds_iff_isInfix, Path.Mentions, decide_eq_true_eq, and_assoc]

/-- What is below an ignored directory is ignored. -/
theorem ignores_below {ignore : IgnoreList} {directory : Path}
    (h : ignore.ignores directory = true) (names : List Bytes) :
    ignore.ignores (directory.below names) = true := by
  simp only [ignores, firstMatch?, List.find?_isSome, Text.holds_iff_isInfix] at h ⊢
  obtain ⟨entry, hmem, hinfix⟩ := h
  exact ⟨entry, hmem, hinfix.trans (directory.shown_prefix_below names).isInfix⟩

end IgnoreList

/-! ## Selections -/

/-- The first directory with the property on the way to it. -/
def FirstOnWay (property : List Bytes → Bool) (names : List Bytes) : Prop :=
  property names = true ∧ ∀ k < names.length, property (names.take k) = false

/-- All directories on the way are tested. -/
instance (property : List Bytes → Bool) (names : List Bytes) :
    Decidable (FirstOnWay property names) :=
  inferInstanceAs (Decidable (_ ∧ _))

namespace ScanOptions

/-- Whether the directory that names lead to from that of a visit is ignored. -/
def ignoresBelow (options : ScanOptions) (visit : Visit) (names : List Bytes) : Bool :=
  options.ignore.ignores (visit.path.below names)

/-- What there is to find in directories below that of a visit: the ones at the last level that are
not ignored, and the number of those that are ignored first. -/
def selected (options : ScanOptions) (visit : Visit) (levels : Nat)
    (directories : List (List Bytes)) : Findings where
  candidates :=
    (directories.filter fun names =>
      names.length = levels ∧ options.ignoresBelow visit names = false).map visit.candidate.below
  ignored := directories.countP fun names => FirstOnWay (options.ignoresBelow visit) names

/-- Every directory that has to be entered on the way to the last level has a path that can be
followed. -/
def Followable (options : ScanOptions) (visit : Visit) (levels : Nat)
    (directories : List (List Bytes)) : Prop :=
  ∀ names ∈ directories, names.length < levels → options.ignoresBelow visit names = false →
    (visit.path.below names).length ≤ maxPathBytes

/-- The result is the selection from the directories, or an error if not all of those can be
followed that have to be. -/
def Selects (options : ScanOptions) (visit : Visit) (levels : Nat)
    (directories : List (List Bytes)) (result : Except ScanError Findings) : Prop :=
  ∀ found, result = .ok found ↔
    options.Followable visit levels directories ∧ found = options.selected visit levels directories

variable {options : ScanOptions} {visit : Visit} {levels : Nat}

/-- What is ignored below an entry is ignored below the directory with the name of the entry in
front. -/
theorem ignoresBelow_cons (name : Bytes) (names : List Bytes) :
    options.ignoresBelow visit (name :: names) = options.ignoresBelow (visit.child name) names :=
  rfl

/-- Everything below an ignored directory is ignored. -/
theorem ignoresBelow_of_ignored (hvisit : options.ignore.ignores visit.path = true)
    (names : List Bytes) : options.ignoresBelow visit names = true :=
  IgnoreList.ignores_below hvisit names

/-- Of no directories nothing is selected. -/
theorem selected_nil : options.selected visit levels [] = {} :=
  rfl

/-- If there are no directories, all of them can be followed. -/
theorem followable_nil : options.Followable visit levels [] := by
  simp [Followable]

/-- What is selected of two lists of directories is put together. -/
theorem selected_append (first second : List (List Bytes)) :
    options.selected visit levels (first ++ second) =
      (options.selected visit levels first).append (options.selected visit levels second) := by
  simp [selected, Findings.append]

/-- Two lists of directories can be followed if each of them can. -/
theorem followable_append {first second : List (List Bytes)} :
    options.Followable visit levels (first ++ second) ↔
      options.Followable visit levels first ∧ options.Followable visit levels second := by
  simp only [Followable, List.mem_append, or_imp, forall_and]

/-- What is found below an entry of a directory that is not ignored is what is found from the entry
on. -/
theorem selected_map_cons (hvisit : options.ignore.ignores visit.path = false) (name : Bytes)
    (directories : List (List Bytes)) :
    options.selected visit (levels + 1) (directories.map (name :: ·)) =
      options.selected (visit.child name) levels directories := by
  have hfirst : ∀ names : List Bytes, FirstOnWay (options.ignoresBelow visit) (name :: names) ↔
      FirstOnWay (options.ignoresBelow (visit.child name)) names := by
    intro names
    apply and_congr_right
    intro _
    constructor
    · intro h k hk
      simpa [ignoresBelow_cons] using h (k + 1) (by simpa using hk)
    · rintro h (_ | k) hk
      · simpa [ignoresBelow] using hvisit
      · simpa [ignoresBelow_cons] using h k (by simpa using hk)
  simp only [selected, List.filter_map, List.map_map, List.countP_map, Function.comp_def, hfirst,
    List.length_cons, Nat.add_right_cancel_iff, ignoresBelow_cons]
  rfl

/-- Directories below an entry can be followed from above it if they can be from the entry. -/
theorem followable_map_cons {name : Bytes} {directories : List (List Bytes)} :
    options.Followable visit (levels + 1) (directories.map (name :: ·)) ↔
      options.Followable (visit.child name) levels directories := by
  simp [Followable, ignoresBelow, Visit.child]

/-- In an ignored directory nothing is found but the directory itself. -/
theorem selected_of_ignored (hvisit : options.ignore.ignores visit.path = true)
    {directories : List (List Bytes)} (hbelow : [] ∉ directories) :
    options.selected visit levels ([] :: directories) = { ignored := 1 } := by
  have hall := ignoresBelow_of_ignored hvisit
  have hfirst : ∀ names, FirstOnWay (options.ignoresBelow visit) names ↔ names = [] := by
    intro names
    constructor
    · rintro ⟨-, h⟩
      by_contra hne
      have := h 0 (List.length_pos_of_ne_nil hne)
      rw [hall] at this
      cases this
    · rintro rfl
      exact ⟨hall [], by simp⟩
  have hcount : directories.countP (fun names => decide (names = [])) = 0 := by
    rw [List.countP_eq_zero]
    rintro names hmem hnil
    rw [of_decide_eq_true hnil] at hmem
    exact hbelow hmem
  simp [selected, hall, hfirst, hcount]

/-- Below an ignored directory nothing has to be followed. -/
theorem followable_of_ignored (hvisit : options.ignore.ignores visit.path = true)
    (directories : List (List Bytes)) : options.Followable visit levels directories := by
  intro names _ _ h
  rw [ignoresBelow_of_ignored hvisit] at h
  cases h

/-- A directory above the last level that is not ignored adds nothing itself. -/
theorem selected_cons_nil (hvisit : options.ignore.ignores visit.path = false)
    (directories : List (List Bytes)) :
    options.selected visit (levels + 1) ([] :: directories) =
      options.selected visit (levels + 1) directories := by
  simp [selected, FirstOnWay, ignoresBelow, hvisit]

/-- A directory above the last level that is not ignored is entered. -/
theorem followable_cons_nil (hvisit : options.ignore.ignores visit.path = false)
    {directories : List (List Bytes)} :
    options.Followable visit (levels + 1) ([] :: directories) ↔
      visit.path.length ≤ maxPathBytes ∧ options.Followable visit (levels + 1) directories := by
  simp [Followable, ignoresBelow, hvisit]

end ScanOptions

end EventFinder
