import EventFinder.Proofs.Result
import EventFinder.Proofs.Tree.Pruning

/-!
# Walks

What a scan that does not enter links finds. A walk from a directory finds exactly the selection
from all directories below it (`visitNode_selects`), and fails exactly if one that it has to enter
has a path that cannot be followed. `FileSystem.scan_eq_ok_iff_selected` says the same of a whole
scan.
-/

set_option autoImplicit false

namespace EventFinder

section Walk

variable {top : Node} {options : ScanOptions} {enterLinked : Enter} {visit : Visit}
  {levels : Nat}

/-- Visiting entries is visiting the first one and then the others. -/
theorem visitEntries_cons_eq_ok {name : Bytes} {node : Node} {rest : List (Bytes × Node)}
    {found : Findings} :
    visitEntries top options enterLinked visit ((name, node) :: rest) = .ok found ↔
      ∃ first others, visitNode top options enterLinked (visit.child name) node = .ok first ∧
        visitEntries top options enterLinked visit rest = .ok others ∧
        found = first.append others := by
  rw [visitEntries]
  cases visitNode top options enterLinked (visit.child name) node with
  | error e => simp
  | ok first =>
    cases visitEntries top options enterLinked visit rest with
    | error e => simp
    | ok others => simp [eq_comm]

/-- If every entry is visited as a selection, so are the entries of a directory together. -/
theorem visitEntries_selects (hvisit : options.ignore.ignores visit.path = false)
    (hnodes : ∀ name node, options.Selects (visit.child name) levels
      (node.directoriesWithin levels)
      (visitNode top options enterLinked (visit.child name) node))
    (entries : List (Bytes × Node)) :
    options.Selects visit (levels + 1) (Node.directoriesOfEntries levels entries)
      (visitEntries top options enterLinked visit entries) := by
  induction entries with
  | nil =>
    intro found
    show Except.ok {} = Except.ok found ↔
      options.Followable visit (levels + 1) [] ∧ found = options.selected visit (levels + 1) []
    simp only [ScanOptions.followable_nil, ScanOptions.selected_nil, Except.ok.injEq, true_and,
      eq_comm]
  | cons entry entries ih =>
    obtain ⟨name, node⟩ := entry
    intro found
    rw [visitEntries_cons_eq_ok, Node.directoriesOfEntries_cons, ScanOptions.followable_append,
      ScanOptions.selected_append, ScanOptions.followable_map_cons,
      ScanOptions.selected_map_cons hvisit]
    constructor
    · rintro ⟨first, others, hfirst, hothers, rfl⟩
      obtain ⟨hfollowable, rfl⟩ := (hnodes name node first).1 hfirst
      obtain ⟨hfollowables, rfl⟩ := (ih others).1 hothers
      exact ⟨⟨hfollowable, hfollowables⟩, rfl⟩
    · rintro ⟨⟨hfollowable, hfollowables⟩, rfl⟩
      exact ⟨_, _, (hnodes name node _).2 ⟨hfollowable, rfl⟩, (ih _).2 ⟨hfollowables, rfl⟩, rfl⟩

/-- A walk that does not follow links finds nothing in what is no directory. -/
theorem visitNode_of_not_isDirectory (hlinks : options.followLinks = false) {node : Node}
    (h : node.isDirectory = false) : visitNode top options enterLinked visit node = .ok {} := by
  cases node with
  | file content => rfl
  | link target => simp only [visitNode, hlinks, Bool.false_eq_true, if_false]
  | directory entries => cases h

/-- A directory above the last level that is not ignored is entered, if its path can be followed.
-/
theorem visitNode_entered_eq_ok (hvisit : options.ignore.ignores visit.path = false)
    (hlevel : visit.depth ≠ options.depth) {entries : List (Bytes × Node)} {found : Findings} :
    visitNode top options enterLinked visit (.directory entries) = .ok found ↔
      visit.path.length ≤ maxPathBytes ∧
        visitEntries top options enterLinked visit.openHere entries = .ok found := by
  have hverdict : options.verdict visit = .entered := by
    simp [ScanOptions.verdict, hvisit, hlevel]
  rw [visitNode, hverdict]
  by_cases hlong : visit.isTooLong = true
  · have hlt : ¬ visit.path.length ≤ maxPathBytes := by
      simpa [Visit.isTooLong] using hlong
    simp [hlong, hlt]
  · have hle : visit.path.length ≤ maxPathBytes := by
      simpa [Visit.isTooLong] using hlong
    simp [hlong, hle]

/-- Nothing is entered at a node that is no directory, nor at an ignored directory. -/
theorem visitNode_selects_of_not_entered (hlinks : options.followLinks = false) {node : Node}
    (h : node.isDirectory = false ∨ options.ignore.ignores visit.path = true) :
    options.Selects visit levels (node.directoriesWithin levels)
      (visitNode top options enterLinked visit node) := by
  intro found
  by_cases hnode : node.isDirectory = false
  · simp only [visitNode_of_not_isDirectory hlinks hnode, ScanOptions.followable_nil,
      Node.directoriesWithin_of_not_isDirectory hnode, ScanOptions.selected_nil,
      Except.ok.injEq, true_and, eq_comm]
  · have hvisit := h.resolve_left hnode
    cases node with
    | file content => exact absurd rfl hnode
    | link target => exact absurd rfl hnode
    | directory entries =>
      obtain ⟨rest, hrest, hbelow⟩ := Node.directoriesWithin_directory levels entries
      have hverdict : options.verdict visit = .ignored := by
        simp [ScanOptions.verdict, hvisit]
      rw [visitNode, hverdict, hrest, ScanOptions.selected_of_ignored hvisit hbelow]
      simp only [ScanOptions.followable_of_ignored hvisit, Except.ok.injEq, true_and, eq_comm]

/-- A directory at the last level that is not ignored is collected. -/
theorem visitNode_selects_of_collected (hvisit : options.ignore.ignores visit.path = false)
    (hdepth : options.depth ≠ 0) (hlevel : visit.depth = options.depth)
    (entries : List (Bytes × Node)) :
    options.Selects visit 0 ((Node.directory entries).directoriesWithin 0)
      (visitNode top options enterLinked visit (.directory entries)) := by
  intro found
  have hverdict : options.verdict visit = .collected := by
    simp only [ScanOptions.verdict, hvisit, Bool.false_eq_true, if_false]
    rw [if_pos ⟨by omega, hlevel⟩]
  have hselected : options.selected visit 0 [[]] = { candidates := [visit.candidate] } := by
    simp [ScanOptions.selected, ScanOptions.ignoresBelow, FirstOnWay, hvisit]
  have hfollowable : options.Followable visit 0 [[]] := by
    simp [ScanOptions.Followable]
  rw [visitNode, hverdict, Node.directoriesWithin_zero, hselected]
  simp only [hfollowable, Except.ok.injEq, true_and, eq_comm]

/-- A walk that does not enter links finds the selection from all directories down to its last
level, as long as it can follow every path that it has to. -/
theorem visitNode_selects (hlinks : options.followLinks = false) (hdepth : options.depth ≠ 0)
    (hlevels : visit.depth + levels = options.depth) (node : Node) :
    options.Selects visit levels (node.directoriesWithin levels)
      (visitNode top options enterLinked visit node) := by
  -- On the levels that are left, because the entries of a directory are visited with one less.
  induction levels generalizing visit node with
  | zero =>
    by_cases h : node.isDirectory = false ∨ options.ignore.ignores visit.path = true
    · exact visitNode_selects_of_not_entered hlinks h
    simp only [not_or, Bool.not_eq_false, Bool.not_eq_true] at h
    obtain ⟨hnode, hvisit⟩ := h
    cases node with
    | file content => cases hnode
    | link target => cases hnode
    | directory entries =>
      exact visitNode_selects_of_collected hvisit hdepth (by omega) entries
  | succ levels ih =>
    by_cases h : node.isDirectory = false ∨ options.ignore.ignores visit.path = true
    · exact visitNode_selects_of_not_entered hlinks h
    simp only [not_or, Bool.not_eq_false, Bool.not_eq_true] at h
    obtain ⟨hnode, hvisit⟩ := h
    cases node with
    | file content => cases hnode
    | link target => cases hnode
    | directory entries =>
      intro found
      have hopen : options.ignore.ignores visit.openHere.path = false := hvisit
      have hentries : options.Selects visit.openHere (levels + 1)
          (Node.directoriesOfEntries levels entries)
          (visitEntries top options enterLinked visit.openHere entries) := by
        apply visitEntries_selects hopen
        intro name node
        apply ih
        show visit.depth + 1 + levels = options.depth
        omega
      rw [visitNode_entered_eq_ok hvisit (by omega), hentries found, Node.directoriesWithin_succ,
        ScanOptions.followable_cons_nil hvisit, ScanOptions.selected_cons_nil hvisit, and_assoc]
      rfl

/-- Entering a directory on a way to leave the tree is visiting it. -/
theorem enter_selects (hlinks : options.followLinks = false) (hdepth : options.depth ≠ 0)
    (hlevels : visit.depth + levels = options.depth) (entries : List (Bytes × Node))
    (linksLeft : Nat) :
    options.Selects visit levels ((Node.directory entries).directoriesWithin levels)
      (enter top options linksLeft visit entries) := by
  cases linksLeft with
  | zero => exact visitNode_selects hlinks hdepth hlevels _
  | succ linksLeft => exact visitNode_selects hlinks hdepth hlevels _

end Walk

/-! ## Scans -/

/-- What a scan reports that looked for the given number of levels. -/
def Findings.report (found : Findings) (depth : Nat) : ScanReport :=
  ⟨found.candidates, found.ignored, depth⟩

namespace FileSystem

variable {files : FileSystem} {root : Path} {place : Place} {options : ScanOptions}

/-- The path that the candidates of a scan start with: none, or the name of its root. -/
def candidateStart (root : Path) (place : Place) (includeParent : Bool) : Path :=
  if includeParent then directoryName root place else []

/-- Where a scan starts. -/
def startVisit (root : Path) (place : Place) (options : ScanOptions) : Visit where
  path := root
  candidate := candidateStart root place options.includeParent
  depth := 0
  names := place.names
  opened := []
  linksLeft := place.linksLeft

/-- Only paths that are not too long lead anywhere. -/
theorem length_le_of_resolve (h : files.resolve root = .ok place) :
    root.length ≤ maxPathBytes := by
  unfold resolve at h
  split_ifs at h with hempty hlong
  exact Nat.le_of_not_lt hlong

/-- The walk of a scan from a root that is a directory. -/
def walk (files : FileSystem) (options : ScanOptions) (visit : Visit)
    (entries : List (Bytes × Node)) : Except ScanError Findings :=
  if files.isLink visit.path && !options.followLinks then
    visitEntries files.top options (enter files.top options visit.linksLeft) visit.openHere entries
  else enter files.top options visit.linksLeft visit entries

/-- A scan of a directory is a walk through its entries. -/
theorem scan_eq_walk {names : List Bytes} {entries : List (Bytes × Node)} {linksLeft : Nat}
    (hroot : files.resolve root = .ok ⟨names, .directory entries, linksLeft⟩) :
    files.scan root options =
      (files.walk options (startVisit root ⟨names, .directory entries, linksLeft⟩ options)
        entries).map (·.report options.depth) := by
  rw [scan, hroot]
  rfl

/-- The walk of a scan that does not enter links finds a selection, also from a root that is a link
and not ignored. -/
theorem walk_selects {visit : Visit} (hlinks : options.followLinks = false)
    (hdepth : options.depth ≠ 0) (hstart : visit.depth = 0)
    (hlength : visit.path.length ≤ maxPathBytes)
    (hlink : files.isLink visit.path = true → options.ignore.ignores visit.path = false)
    (entries : List (Bytes × Node)) :
    options.Selects visit options.depth ((Node.directory entries).directoriesWithin options.depth)
      (files.walk options visit entries) := by
  cases hroot : files.isLink visit.path with
  | false =>
    simp only [walk, hroot, Bool.false_and, Bool.false_eq_true, if_false]
    exact enter_selects hlinks hdepth (by omega) entries visit.linksLeft
  | true =>
    have hvisit := hlink hroot
    have hopen : options.ignore.ignores visit.openHere.path = false := hvisit
    obtain ⟨levels, hlevels⟩ := Nat.exists_eq_succ_of_ne_zero hdepth
    have hentries : options.Selects visit.openHere (levels + 1)
        (Node.directoriesOfEntries levels entries)
        (visitEntries files.top options (enter files.top options visit.linksLeft) visit.openHere
          entries) := by
      apply visitEntries_selects hopen
      intro name node
      apply visitNode_selects hlinks hdepth
      show visit.depth + 1 + levels = options.depth
      omega
    intro found
    simp only [walk, hroot, hlinks, Bool.not_false, Bool.and_true, if_true]
    rw [hentries found, hlevels, Nat.succ_eq_add_one, Node.directoriesWithin_succ,
      ScanOptions.followable_cons_nil hvisit, ScanOptions.selected_cons_nil hvisit]
    simp only [hlength, true_and]
    rfl

/-- A scan that does not enter links finds the selection from all directories down to its level.
The directories of a root that is a link are found as well, unless the root is ignored. -/
theorem scan_eq_ok_iff_selected (hroot : files.resolve root = .ok place)
    (hdirectory : place.node.isDirectory = true) (hlinks : options.followLinks = false)
    (hdepth : options.depth ≠ 0)
    (hlink : files.isLink root = true → options.ignore.ignores root = false)
    {report : ScanReport} :
    files.scan root options = .ok report ↔
      options.Followable (startVisit root place options) options.depth
          (place.node.directoriesWithin options.depth) ∧
        report = (options.selected (startVisit root place options) options.depth
          (place.node.directoriesWithin options.depth)).report options.depth := by
  obtain ⟨names, node, linksLeft⟩ := place
  cases node with
  | file content => cases hdirectory
  | link target => cases hdirectory
  | directory entries =>
    have hwalk : options.Selects (startVisit root ⟨names, .directory entries, linksLeft⟩ options)
        options.depth ((Node.directory entries).directoriesWithin options.depth)
        (files.walk options (startVisit root ⟨names, .directory entries, linksLeft⟩ options)
          entries) :=
      walk_selects hlinks hdepth rfl (length_le_of_resolve hroot) hlink entries
    rw [scan_eq_walk hroot, map_eq_ok_iff]
    constructor
    · rintro ⟨found, hfound, rfl⟩
      obtain ⟨hfollowable, rfl⟩ := (hwalk found).1 hfound
      exact ⟨hfollowable, rfl⟩
    · rintro ⟨hfollowable, rfl⟩
      exact ⟨_, (hwalk _).2 ⟨hfollowable, rfl⟩, rfl⟩

end FileSystem

end EventFinder
