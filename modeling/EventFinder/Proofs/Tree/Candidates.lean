import EventFinder.Proofs.Tree.Following
import EventFinder.Proofs.Tree.Walk

/-!
# Candidates

Whatever a scan is asked for, also if it is to enter links, its candidates lie at its depth: each of
them is the path that all candidates start with, followed by one name of an entry for every level
(`FileSystem.candidate_of_scan`). One step of the walk goes one level down and puts one name behind
the candidate of the visit; entering a link changes neither.
-/

set_option autoImplicit false

namespace EventFinder

/-- Every candidate of the result lies at the depth of the options, below the candidate of the
visit. -/
def ScanOptions.CollectsBelow (options : ScanOptions) (visit : Visit)
    (result : Except ScanError Findings) : Prop :=
  ∀ found, result = .ok found → ∀ candidate ∈ found.candidates, ∃ names : List Bytes,
    (∀ name ∈ names, IsName name) ∧ visit.depth + names.length = options.depth ∧
      candidate = visit.candidate.below names

section Walk

variable {top : Node} {options : ScanOptions} {enterLinked : Enter} {visit : Visit}

/-- Nothing is collected below every directory. -/
theorem collectsBelow_empty : options.CollectsBelow visit (.ok {}) := by
  rintro _ ⟨⟩ candidate hmem
  cases hmem

/-- An error collects nothing. -/
theorem collectsBelow_error (e : ScanError) : options.CollectsBelow visit (.error e) := by
  rintro _ ⟨⟩

/-- What lies below an entry lies below its directory. -/
theorem ScanOptions.CollectsBelow.of_child {name : Bytes} {result : Except ScanError Findings}
    (hname : IsName name) (h : options.CollectsBelow (visit.child name) result) :
    options.CollectsBelow visit result := by
  intro found hfound candidate hmem
  obtain ⟨names, hnames, hdepth, rfl⟩ := h found hfound candidate hmem
  have hlevel : visit.depth + 1 + names.length = options.depth := hdepth
  refine ⟨name :: names, List.forall_mem_cons.2 ⟨hname, hnames⟩, ?_, rfl⟩
  rw [List.length_cons]
  omega

/-- A walk through entries collects below their directory, if it does so below each of them. -/
theorem visitEntries_collectsBelow {entries : List (Bytes × Node)}
    (h : ∀ entry ∈ entries, IsName entry.1 ∧ options.CollectsBelow (visit.child entry.1)
      (visitNode top options enterLinked (visit.child entry.1) entry.2)) :
    options.CollectsBelow visit (visitEntries top options enterLinked visit entries) := by
  induction entries with
  | nil => exact collectsBelow_empty
  | cons entry entries ih =>
    obtain ⟨⟨hname, hfirst⟩, hrest⟩ := List.forall_mem_cons.1 h
    intro found hfound candidate hmem
    obtain ⟨first, others, hfirstFound, hothers, rfl⟩ := visitEntries_cons_eq_ok.1 hfound
    obtain hmem | hmem := List.mem_append.1 hmem
    · exact hfirst.of_child hname first hfirstFound candidate hmem
    · exact ih hrest others hothers candidate hmem

/-- A link in a well-named tree leads to a well-named node. -/
theorem follow_wellNamed (htop : top.WellNamed) {target : Path} {place : Place}
    (h : visit.follow top target = .ok place) : place.node.WellNamed := by
  have hlink : followLink top visit.linksLeft visit.names.dropLast target = .ok place := by
    by_cases hlong : visit.isTooLong = true
    · simp [Visit.follow, hlong] at h
    · simpa [Visit.follow, hlong] using h
  cases hleft : visit.linksLeft with
  | zero =>
    rw [hleft] at hlink
    cases hlink
  | succ linksLeft =>
    rw [hleft, followLink] at hlink
    exact (htop.of_at? (at?_of_follow hlink)).1

/-- A visit collects below its own candidate, if entering linked directories does. -/
theorem visitNode_collectsBelow (htop : top.WellNamed)
    (hlinked : ∀ visit entries, (Node.directory entries).WellNamed →
      options.CollectsBelow visit (enterLinked visit entries))
    {node : Node} (hnode : node.WellNamed) :
    options.CollectsBelow visit (visitNode top options enterLinked visit node) := by
  induction hnode generalizing visit with
  | file content => exact collectsBelow_empty
  | link target =>
    rw [visitNode]
    split_ifs
    · cases hplace : visit.follow top target with
      | error e => exact collectsBelow_error _
      | ok place =>
        -- The link is entered under its own path, so the level does not change.
        have hplaceNamed : place.node.WellNamed := follow_wellNamed htop hplace
        cases hnode : place.node with
        | file content => simpa [hnode] using collectsBelow_empty
        | link target => simpa [hnode] using collectsBelow_empty
        | directory entries =>
          rw [hnode] at hplaceNamed
          simp only [hnode]
          split_ifs
          · exact collectsBelow_error _
          · exact hlinked (visit.movedTo place) entries hplaceNamed
    · exact collectsBelow_empty
  | @directory entries hnames hnodes ih =>
    rw [visitNode]
    cases hverdict : options.verdict visit with
    | ignored =>
      rintro _ ⟨⟩ candidate hmem
      cases hmem
    | collected =>
      have hlevel : visit.depth = options.depth := by
        unfold ScanOptions.verdict at hverdict
        split_ifs at hverdict with _ hcollected
        exact hcollected.2
      rintro _ ⟨⟩ candidate hmem
      exact ⟨[], by simp, by simpa using hlevel, List.mem_singleton.1 hmem⟩
    | entered =>
      split_ifs
      · exact collectsBelow_error _
      · exact visitEntries_collectsBelow fun entry hmem => ⟨hnames entry hmem, ih entry hmem⟩

/-- A walk through a linked directory collects below the link, however many links are left. -/
theorem enter_collectsBelow (htop : top.WellNamed) {linksLeft : Nat}
    {entries : List (Bytes × Node)} (hentries : (Node.directory entries).WellNamed) :
    options.CollectsBelow visit (enter top options linksLeft visit entries) := by
  induction linksLeft generalizing visit entries with
  | zero =>
    exact visitNode_collectsBelow htop (fun visit entries _ => collectsBelow_error _) hentries
  | succ linksLeft ih =>
    exact visitNode_collectsBelow htop (fun visit entries hlinked => ih hlinked) hentries

end Walk

namespace FileSystem

variable {files : FileSystem} {root : Path} {place : Place} {options : ScanOptions}

/-- A path in a well-named tree leads to a well-named node, by names. -/
theorem wellNamed_of_resolve (htop : files.top.WellNamed) (hroot : files.resolve root = .ok place) :
    place.node.WellNamed ∧ ∀ name ∈ place.names, IsName name :=
  htop.of_at? (at?_of_follow (follow_of_resolve hroot).2)

/-- The whole walk collects below the directory that it starts in. -/
theorem walk_collectsBelow (htop : files.top.WellNamed) {visit : Visit}
    {entries : List (Bytes × Node)} (hentries : (Node.directory entries).WellNamed) :
    options.CollectsBelow visit (files.walk options visit entries) := by
  rw [walk]
  split_ifs
  · cases hentries with
    | directory hnames hnodes =>
      exact visitEntries_collectsBelow fun entry hmem => ⟨hnames entry hmem,
        visitNode_collectsBelow htop (fun _ _ => enter_collectsBelow htop) (hnodes entry hmem)⟩
  · exact enter_collectsBelow htop hentries

/-- What a scan reports was collected below its start, also if the root is no directory. -/
theorem exists_scan_eq (htop : files.top.WellNamed) (hroot : files.resolve root = .ok place) :
    ∃ result, files.scan root options = result.map (·.report options.depth) ∧
      options.CollectsBelow (startVisit root place options) result := by
  obtain ⟨hnode, -⟩ := wellNamed_of_resolve htop hroot
  obtain ⟨names, node, linksLeft⟩ := place
  cases node with
  | file content => exact ⟨.ok {}, by rw [scan, hroot]; rfl, collectsBelow_empty⟩
  | link target => exact ⟨.ok {}, by rw [scan, hroot]; rfl, collectsBelow_empty⟩
  | directory entries => exact ⟨_, scan_eq_walk hroot, walk_collectsBelow htop hnode⟩

/-- The candidates of a scan lie at its depth below the root, or below the name of the root. -/
theorem candidate_of_scan (htop : files.top.WellNamed) (hroot : files.resolve root = .ok place)
    {report : ScanReport} (hreport : files.scan root options = .ok report) :
    ∀ candidate ∈ report.candidates, ∃ names : List Bytes, (∀ name ∈ names, IsName name) ∧
      names.length = options.depth ∧
        candidate = (candidateStart root place options.includeParent).below names := by
  obtain ⟨result, hscan, hcollects⟩ := exists_scan_eq htop hroot
  rw [hscan] at hreport
  obtain ⟨found, hfound, rfl⟩ := map_eq_ok_iff.1 hreport
  intro candidate hmem
  obtain ⟨names, hnames, hdepth, heq⟩ := hcollects found hfound candidate hmem
  exact ⟨names, hnames, (Nat.zero_add _).symm.trans hdepth, heq⟩

/-- A directory that has a name in front of its candidates has one that a directory can have. -/
theorem isName_directoryName (htop : files.top.WellNamed) (hroot : files.resolve root = .ok place)
    (hne : directoryName root place ≠ []) : IsName (directoryName root place) := by
  unfold directoryName at hne ⊢
  cases hfile : root.fileName? with
  | some name => exact Path.isName_of_fileName? hfile
  | none =>
    cases hlast : place.names.getLast? with
    | none => simp [hfile, hlast] at hne
    | some name => exact (wellNamed_of_resolve htop hroot).2 name (List.mem_of_getLast? hlast)

end FileSystem

end EventFinder
