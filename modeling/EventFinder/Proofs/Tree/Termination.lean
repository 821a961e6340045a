import EventFinder.Proofs.Tree.Failures
import Mathlib.Data.Set.Card
import Mathlib.Data.Set.Finite.Lattice

/-!
# Scans end

A scan enters finitely many directories and meets finitely many nodes, also in a tree whose links
lead around in circles (`FileSystem.finite_meets`). The number of directories in the tree alone does
not bound the way, because a directory may be entered again through an entry, which is not looked
for among the open ones. But every link that is entered leads to a directory that is new on the way,
and between two of those the way only goes down. So each new directory pays for as many names as the
tree is high (`FileSystem.Enters.length_add_le`). The limits on paths and on links are not needed.
-/

set_option autoImplicit false

namespace EventFinder

/-- A tree has finitely many directories. -/
theorem Node.finite_hasDirectory {node : Node} (h : node.WellNamed) :
    {names | node.HasDirectory names}.Finite := by
  induction h with
  | file content => simp
  | link target => simp
  | @directory entries _ _ ih =>
    have hbelow : (⋃ entry ∈ {entry | entry ∈ entries},
        (entry.1 :: ·) '' {names | entry.2.HasDirectory names}).Finite :=
      entries.finite_toSet.biUnion fun entry hmem => (ih entry hmem).image _
    refine (hbelow.insert []).subset ?_
    rintro (_ | ⟨name, names⟩) hnames
    · exact .inl rfl
    · obtain ⟨node, hnode, hrest⟩ := hasDirectory_cons_iff.1 hnames
      refine .inr (Set.mem_biUnion (mem_of_lookup_eq_some hnode) ?_)
      exact ⟨names, hrest, rfl⟩

namespace FileSystem

variable {files : FileSystem} {root : Path} {options : ScanOptions} {names : List Bytes}
  {directory : List Bytes}

/-- A path leads only to a directory of the tree. -/
theorem LeadsTo.hasDirectory {path : Path} (h : files.LeadsTo path directory) :
    files.top.HasDirectory directory := by
  obtain ⟨entries, linksLeft, hpath⟩ := h
  exact ⟨entries, at?_of_resolve hpath⟩

/-- The directories that the way along the names goes through, the last one included. -/
def passed (files : FileSystem) (root : Path) (names : List Bytes) : Set (List Bytes) :=
  {directory | files.IsOnWay root names directory ∨ files.LeadsTo (root.below names) directory}

/-- The way goes through directories of the tree only. -/
theorem passed_subset :
    files.passed root names ⊆ {directory | files.top.HasDirectory directory} := by
  rintro directory (⟨k, -, hleads⟩ | hleads)
  · exact hleads.hasDirectory
  · exact hleads.hasDirectory

/-- The way to the root goes through the root. -/
theorem passed_nil (hroot : files.LeadsTo root directory) : files.passed root [] = {directory} := by
  ext other
  constructor
  · rintro (honWay | hleads)
    · exact absurd honWay not_isOnWay_nil
    · exact hleads.unique hroot
  · rintro rfl
    exact .inr hroot

/-- One name more adds the directory that it leads to. -/
theorem passed_concat {name : Bytes}
    (hleads : files.LeadsTo (root.below (names ++ [name])) directory) :
    files.passed root (names ++ [name]) = insert directory (files.passed root names) := by
  ext other
  simp only [passed, Set.mem_ofPred_eq, Set.mem_insert_iff, isOnWay_concat_iff]
  rw [or_comm]
  exact or_congr_left ⟨fun h => h.unique hleads, fun h => h ▸ hleads⟩

section Bound

variable (htop : files.top.WellNamed) (hshort : files.top.ShortNamed)
include htop hshort

/-- Behind an entry that is a directory the way leads one level further down. -/
theorem LeadsTo.of_directory {name : Bytes} {below : List (Bytes × Node)}
    (hentry : files.HasEntry (root.below names) name (.directory below))
    (hleads : files.LeadsTo (root.below names) directory)
    (hlength : (root.below (names ++ [name])).length ≤ maxPathBytes) :
    files.LeadsTo (root.below (names ++ [name])) (directory ++ [name]) := by
  obtain ⟨directory', entries, linksLeft, hpath, hnamed⟩ := hentry
  obtain rfl : directory' = directory := LeadsTo.unique ⟨entries, linksLeft, hpath⟩ hleads
  rw [Path.below_concat] at hlength ⊢
  exact ⟨below, linksLeft, resolve_of_directory htop hshort hpath hnamed hlength⟩

/-- A way has at most as many names as the tree is high, for each directory that it passes, and no
more than the depth of its last directory behind the last new one. -/
theorem Enters.length_add_le {height : Nat}
    (hheight : ∀ directory, files.top.HasDirectory directory → directory.length ≤ height)
    {start : List Bytes} (hroot : files.LeadsTo root start)
    (henters : files.Enters root options names) :
    ∃ directory, files.LeadsTo (root.below names) directory ∧
      names.length + (height + 1) ≤
        (files.passed root names).ncard * (height + 1) + directory.length := by
  induction henters with
  | root => exact ⟨start, hroot, by simp [passed_nil hroot]⟩
  | @directory names name below _ hentry _ hlength ih =>
    obtain ⟨directory, hleads, hle⟩ := ih
    have hnext := LeadsTo.of_directory htop hshort hentry hleads hlength
    have hdepth := hheight _ hleads.hasDirectory
    have hmore : (files.passed root names).ncard ≤ (files.passed root (names ++ [name])).ncard := by
      rw [passed_concat hnext]
      exact Set.ncard_le_ncard (Set.subset_insert _ _)
        (((Node.finite_hasDirectory htop).subset passed_subset).insert _)
    refine ⟨directory ++ [name], hnext, ?_⟩
    have := Nat.mul_le_mul_right (height + 1) hmore
    simp only [List.length_append, List.length_singleton]
    omega
  | @link names name target next _ hentry _ hnext hnew _ ih =>
    obtain ⟨directory, hleads, hle⟩ := ih
    have hdepth := hheight _ hleads.hasDirectory
    -- The directory that a link leads to was not passed, so there is one more of them.
    have hnotPassed : next ∉ files.passed root names := fun h => hnew (isOnWay_concat_iff.2 h)
    refine ⟨next, hnext, ?_⟩
    rw [passed_concat hnext, Set.ncard_insert_of_notMem hnotPassed
      ((Node.finite_hasDirectory htop).subset passed_subset), Nat.succ_mul, List.length_append,
      List.length_singleton]
    omega

/-- A scan goes along fewer names than its tree has directories, each taken as often as the tree has
levels. -/
theorem Enters.length_lt {height : Nat}
    (hheight : ∀ directory, files.top.HasDirectory directory → directory.length ≤ height)
    {start : List Bytes} (hroot : files.LeadsTo root start)
    (henters : files.Enters root options names) :
    names.length < {directory | files.top.HasDirectory directory}.ncard * (height + 1) := by
  obtain ⟨directory, hleads, hle⟩ := henters.length_add_le htop hshort hheight hroot
  have hdepth := hheight _ hleads.hasDirectory
  have hpassed : (files.passed root names).ncard ≤
      {directory | files.top.HasDirectory directory}.ncard :=
    Set.ncard_le_ncard passed_subset (Node.finite_hasDirectory htop)
  have := Nat.mul_le_mul_right (height + 1) hpassed
  omega

end Bound

/-! ## What is met -/

/-- A directory has finitely many entries. -/
theorem finite_hasEntry (files : FileSystem) (path : Path) :
    {name | ∃ node, files.HasEntry path name node}.Finite := by
  by_cases hpath : ∃ directory entries linksLeft,
      files.resolve path = .ok ⟨directory, .directory entries, linksLeft⟩
  · obtain ⟨directory, entries, linksLeft, hpath⟩ := hpath
    refine (entries.finite_toSet.image Prod.fst).subset ?_
    rintro name ⟨node, _, _, _, hpath', hnamed⟩
    rw [hpath] at hpath'
    cases hpath'
    exact ⟨_, mem_of_lookup_eq_some hnamed, rfl⟩
  · refine Set.finite_empty.subset ?_
    rintro name ⟨node, directory, entries, linksLeft, hpath', -⟩
    exact absurd ⟨directory, entries, linksLeft, hpath'⟩ hpath

/-- In finitely many directories finitely many nodes are met. -/
theorem finite_meets_of_enters (files : FileSystem) (root : Path) {entered : Set (List Bytes)}
    (hentered : entered.Finite) :
    {names | ∃ before ∈ entered, ∃ name node, names = before ++ [name] ∧
      files.HasEntry (root.below before) name node}.Finite := by
  refine (hentered.biUnion fun before _ =>
    (files.finite_hasEntry (root.below before)).image (before ++ [·])).subset ?_
  rintro names ⟨before, hbefore, name, node, rfl, hentry⟩
  exact Set.mem_biUnion hbefore ⟨name, ⟨node, hentry⟩, rfl⟩

/-- A scan enters finitely many places down to any depth. -/
theorem finite_enters_of_length_le (files : FileSystem) (root : Path) (options : ScanOptions)
    (bound : Nat) : {names | files.Enters root options names ∧ names.length ≤ bound}.Finite := by
  induction bound with
  | zero =>
    refine (Set.finite_singleton []).subset ?_
    rintro names ⟨-, hlength⟩
    exact List.length_eq_zero_iff.1 (Nat.le_zero.1 hlength)
  | succ bound ih =>
    refine ((files.finite_meets_of_enters root ih).insert []).subset ?_
    rintro names ⟨henters, hlength⟩
    by_cases hne : names = []
    · exact .inl hne
    · obtain ⟨node, before, name, rfl, hbefore, hentry⟩ := henters.exists_meets hne
      rw [List.length_append, List.length_singleton] at hlength
      exact .inr ⟨before, ⟨hbefore, by omega⟩, name, node, rfl, hentry⟩

/-- A scan meets finitely many nodes. -/
theorem finite_meets (htop : files.top.WellNamed) (hshort : files.top.ShortNamed)
    (hroot : files.LeadsTo root directory) :
    {names | ∃ node, files.Meets root options names node}.Finite := by
  obtain ⟨height, hbound⟩ := ((Node.finite_hasDirectory htop).image List.length).bddAbove
  have hheight : ∀ directory, files.top.HasDirectory directory → directory.length ≤ height :=
    fun directory hdirectory => hbound ⟨directory, hdirectory, rfl⟩
  have hentered : {names | files.Enters root options names}.Finite :=
    (finite_enters_of_length_le files root options _).subset fun names henters =>
      ⟨henters, (Enters.length_lt htop hshort hheight hroot henters).le⟩
  refine (files.finite_meets_of_enters root hentered).subset ?_
  rintro names ⟨node, before, name, rfl, henters, hentry⟩
  exact ⟨before, henters, name, node, rfl, hentry⟩

end FileSystem

end EventFinder
