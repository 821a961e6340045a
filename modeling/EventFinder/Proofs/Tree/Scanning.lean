import EventFinder.Proofs.Tree.Following
import EventFinder.Proofs.Tree.Walk

/-!
# Scans

What a scan that does not enter links reports, said by the directories that there are and the texts
of their paths (`FileSystem.scan_finds_unmentioned`). It finds them as long as every directory that
it has to enter has a path that can be followed, which is not so in every tree
(`FileSystem.no_scan_below_long_root`).
-/

set_option autoImplicit false

namespace EventFinder

namespace FileSystem

variable {files : FileSystem} {root : Path} {place : Place}

/-- A walk below a root can follow every path that it has to exactly if no directory above the last
level that mentions no entry has a path that is too long. -/
theorem followable_iff (hordered : place.node.Ordered) {depth : Nat} {texts : List Text}
    {options : ScanOptions} (hignore : options.ignore = .ofEntries texts) :
    options.Followable (startVisit root place options) depth (place.node.directoriesWithin depth) ↔
      ∀ names, names.length < depth → place.node.HasDirectory names →
        ¬ (root.below names).Mentions texts → (root.below names).length ≤ maxPathBytes := by
  simp only [ScanOptions.Followable, ScanOptions.ignoresBelow, hignore,
    Node.mem_directoriesWithin_iff hordered, ← Bool.not_eq_true, IgnoreList.ignores_ofEntries_iff]
  constructor
  · intro h names hlength hmem hmentions
    exact h names ⟨hlength.le, hmem⟩ hlength hmentions
  · rintro h names ⟨-, hmem⟩ hlength hmentions
    exact h names hlength hmem hmentions

/-- What a scan with a list of ignored texts reports. -/
theorem scan_ofEntries_eq_ok_iff (hroot : files.resolve root = .ok place)
    (hdirectory : place.node.isDirectory = true) (hordered : place.node.Ordered) {depth : Nat}
    (hdepth : depth ≠ 0) {texts : List Text}
    (hlink : files.isLink root = true → ¬ root.Mentions texts) (includeParent : Bool)
    {report : ScanReport} :
    files.scan root { depth, ignore := .ofEntries texts, includeParent } = .ok report ↔
      (∀ names, names.length < depth → place.node.HasDirectory names →
        ¬ (root.below names).Mentions texts → (root.below names).length ≤ maxPathBytes) ∧
      report =
        ⟨((place.node.directoriesWithin depth).filter fun names =>
            names.length = depth ∧ ¬ (root.below names).Mentions texts).map
              (candidateStart root place includeParent).below,
          (place.node.directoriesWithin depth).countP fun names =>
            (root.below names).Mentions texts ∧
              ∀ k < names.length, ¬ (root.below (names.take k)).Mentions texts, depth⟩ := by
  rw [scan_eq_ok_iff_selected hroot hdirectory rfl hdepth, followable_iff hordered rfl]
  · simp only [ScanOptions.selected, ScanOptions.ignoresBelow, FirstOnWay, Findings.report,
      startVisit, ← Bool.not_eq_true, IgnoreList.ignores_ofEntries_iff]
  · intro h
    rw [← Bool.not_eq_true, IgnoreList.ignores_ofEntries_iff]
    exact hlink h

/-- What a scan that ignores nothing reports, also below a root that is a link. -/
theorem scan_eq_ok_iff_directoriesAt (hroot : files.resolve root = .ok place)
    (hdirectory : place.node.isDirectory = true) (hordered : place.node.Ordered) {depth : Nat}
    (hdepth : depth ≠ 0) (includeParent : Bool) {report : ScanReport} :
    files.scan root { depth, includeParent } = .ok report ↔
      (∀ names, names.length < depth → place.node.HasDirectory names →
        (root.below names).length ≤ maxPathBytes) ∧
      report = ⟨(place.node.directoriesAt depth).map
        (candidateStart root place includeParent).below, 0, depth⟩ := by
  have hscan : files.scan root { depth, ignore := .ofEntries [], includeParent } = .ok report ↔ _ :=
    scan_ofEntries_eq_ok_iff hroot hdirectory hordered hdepth (fun _ => root.not_mentions_nil)
      includeParent
  simpa [IgnoreList.none, Node.directoriesAt] using hscan

/-- No scan succeeds that would have to enter a directory with a path that is too long. -/
theorem scan_ne_ok_of_long_path (hroot : files.resolve root = .ok place)
    (hdirectory : place.node.isDirectory = true) (hordered : place.node.Ordered) {depth : Nat}
    {names : List Bytes} (hlength : names.length < depth) (hnames : place.node.HasDirectory names)
    (hlong : maxPathBytes < (root.below names).length) (report : ScanReport) :
    files.scan root { depth } ≠ .ok report := by
  intro hreport
  have hfollowable := ((scan_eq_ok_iff_directoriesAt hroot hdirectory hordered
    (Nat.ne_zero_of_lt hlength) false).1 hreport).1
  have := hfollowable names hlength hnames
  omega

/-- The candidates of a scan that does not enter links are the directories at its level whose paths
mention no ignored text, each once and in the order of their names, and what it counts are the
directories down to that level whose paths mention one while those on the way to them do not. It
fails exactly if a directory above that level, whose path mentions no ignored text, has a path that
cannot be followed. -/
theorem scan_finds_unmentioned (hroot : files.resolve root = .ok place)
    (hdirectory : place.node.isDirectory = true) (hlink : files.isLink root = false)
    (hordered : place.node.Ordered) {depth : Nat} (hdepth : depth ≠ 0) (includeParent : Bool) :
    ∃ level : List (List Bytes),
      level.Pairwise (· < ·) ∧
      (∀ names, names ∈ level ↔ names.length = depth ∧ place.node.HasDirectory names) ∧
      (∀ report, files.scan root { depth, includeParent } = .ok report ↔
        (∀ names, names.length < depth → place.node.HasDirectory names →
          (root.below names).length ≤ maxPathBytes) ∧
        report = ⟨level.map (candidateStart root place includeParent).below, 0, depth⟩) ∧
      ∀ texts : List Text, ∃ ignored : List (List Bytes),
        ignored.Pairwise (· < ·) ∧
        (∀ names, names ∈ ignored ↔ names.length ≤ depth ∧ place.node.HasDirectory names ∧
          (root.below names).Mentions texts ∧
          ∀ k < names.length, ¬ (root.below (names.take k)).Mentions texts) ∧
        ∀ report,
          files.scan root { depth, ignore := .ofEntries texts, includeParent } = .ok report ↔
          (∀ names, names.length < depth → place.node.HasDirectory names →
            ¬ (root.below names).Mentions texts → (root.below names).length ≤ maxPathBytes) ∧
          report =
            ⟨(level.filter fun names => ¬ (root.below names).Mentions texts).map
                (candidateStart root place includeParent).below, ignored.length, depth⟩ := by
  refine ⟨place.node.directoriesAt depth, Node.pairwise_directoriesAt hordered depth,
    fun names => Node.mem_directoriesAt_iff hordered,
    fun report => scan_eq_ok_iff_directoriesAt hroot hdirectory hordered hdepth includeParent, ?_⟩
  intro texts
  refine ⟨(place.node.directoriesWithin depth).filter fun names =>
    (root.below names).Mentions texts ∧
      ∀ k < names.length, ¬ (root.below (names.take k)).Mentions texts,
    (Node.pairwise_directoriesWithin hordered depth).filter _, ?_, ?_⟩
  · intro names
    rw [List.mem_filter, Node.mem_directoriesWithin_iff hordered, decide_eq_true_eq, and_assoc]
  · intro report
    rw [scan_ofEntries_eq_ok_iff hroot hdirectory hordered hdepth (by simp [hlink]),
      List.countP_eq_length_filter, Node.directoriesAt, List.filter_filter]
    simp only [← Bool.decide_and, and_comm]

/-- The scan of two levels below the current directory finds the directories there. -/
theorem scan_two_levels :
    let top : Node := .ofDirectories [[[0x61], [0x62]], [[0x63]]]
    let files : FileSystem := ⟨top, []⟩
    files.resolve [dot] = .ok ⟨[], top, maxLinks⟩ ∧ files.isLink [dot] = false ∧ top.Ordered ∧
      ∃ level : List (List Bytes), level.Pairwise (· < ·) ∧
        (∀ names, names ∈ level ↔ names.length = 2 ∧ top.HasDirectory names) ∧
        ∀ report, files.scan [dot] { depth := 2 } = .ok report →
          report.candidates = level.map (Path.below []) := by
  intro top files
  have hroot : files.resolve [dot] = .ok ⟨[], top, maxLinks⟩ := rfl
  have hlink : files.isLink [dot] = false := rfl
  have hordered : top.Ordered := Node.ordered_ofDirectories _
  obtain ⟨level, hsorted, hlevel, hscan, -⟩ :=
    scan_finds_unmentioned hroot rfl hlink hordered (show 2 ≠ 0 by decide) false
  refine ⟨hroot, hlink, hordered, level, hsorted, hlevel, fun report hreport => ?_⟩
  rw [((hscan report).1 hreport).2]
  rfl

/-! ## A root whose path is nearly too long -/

end FileSystem

namespace Path

/-- The path that stays where it starts, and says so once more than the given number of times. -/
def staying : Nat → Path
  | 0 => [dot]
  | times + 1 => dot :: slash :: staying times

/-- The path that stays in place is not empty. -/
theorem staying_ne_nil (times : Nat) : staying times ≠ [] := by
  cases times <;> simp [staying]

/-- Each time that it says so adds two bytes. -/
theorem length_staying (times : Nat) : (staying times).length = 2 * times + 1 := by
  induction times with
  | zero => rfl
  | succ times ih =>
    simp only [staying, List.length_cons, ih]
    omega

/-- Below a directory whose path is as long as can be followed, every path is too long. -/
theorem lt_length_below {directory name : Path} (hdirectory : maxPathBytes ≤ directory.length)
    (hname : name ≠ []) : maxPathBytes < (directory.below [name]).length := by
  have := List.length_pos_of_ne_nil hname
  rw [below_cons, below_nil, join]
  split_ifs
  · rw [List.length_append]
    omega
  · rw [List.length_append, List.length_cons]
    omega

/-- The path that stays in place ends with a dot. -/
theorem endsWithSlash_staying (times : Nat) : (staying times).endsWithSlash = false := by
  induction times with
  | zero => rfl
  | succ times ih =>
    rwa [staying, endsWithSlash, List.getLast?_cons_cons,
      List.getLast?_cons_of_ne_nil (staying_ne_nil times)]

/-- All of its steps stay in place. -/
theorem steps_staying (times : Nat) :
    (staying times).steps = List.replicate (times + 1) Step.here := by
  have hpieces : (staying times).splitOn slash = List.replicate (times + 1) [dot] := by
    induction times with
    | zero => rfl
    | succ times ih =>
      have hdot : slash ∉ [dot] := by decide
      rw [List.replicate_succ, ← ih]
      exact List.splitOn_append_cons_self_of_not_mem hdot _
  rw [steps, hpieces, endsWithSlash_staying]
  simp [Step.ofPiece?]

/-- The path that stays in place starts in the current directory. -/
theorem isAbsolute_staying (times : Nat) : (staying times).isAbsolute = false := by
  cases times <;> rfl

end Path

namespace FileSystem

/-- A path that stays where it starts leads to the current directory. -/
theorem resolve_staying {files : FileSystem} {node : Node} {times : Nat}
    (hnode : files.top.at? files.current = some node) (htimes : 2 * times + 1 ≤ maxPathBytes) :
    files.resolve (Path.staying times) = .ok ⟨files.current, node, maxLinks⟩ := by
  rw [resolve, if_neg (Path.staying_ne_nil times), Path.length_staying, if_neg (by omega), startOf,
    Path.isAbsolute_staying, Path.steps_staying]
  exact follow_of_here hnode fun step => List.eq_of_mem_replicate

/-- The path that stays in place names no link. -/
theorem isLink_staying (files : FileSystem) (times : Nat) :
    files.isLink (Path.staying times) = false := by
  simp [isLink, Path.steps_staying, List.getLast?_replicate]

/-- A tree of two levels cannot be scanned below a root whose path is as long as can be followed,
although both of its directories are there: the path of the first one is too long. -/
theorem no_scan_below_long_root :
    let top : Node := .ofDirectories [[[0x61], [0x62]]]
    let files : FileSystem := ⟨top, []⟩
    let root := Path.staying 2047
    files.resolve root = .ok ⟨[], top, maxLinks⟩ ∧ files.isLink root = false ∧ top.Ordered ∧
      top.HasDirectory [[0x61], [0x62]] ∧
      ∀ report, files.scan root { depth := 2 } ≠ .ok report := by
  intro top files root
  have hroot : files.resolve root = .ok ⟨[], top, maxLinks⟩ :=
    resolve_staying rfl (by decide)
  have hordered : top.Ordered := Node.ordered_ofDirectories _
  have hfirst : top.HasDirectory [[0x61]] :=
    Node.hasDirectory_ofDirectories.2 (.inr ⟨_, List.mem_singleton.2 rfl, by simp⟩)
  have hsecond : top.HasDirectory [[0x61], [0x62]] :=
    Node.hasDirectory_ofDirectories.2 (.inr ⟨_, List.mem_singleton.2 rfl, List.prefix_rfl⟩)
  have hlength : maxPathBytes ≤ root.length := (Path.length_staying 2047).ge
  have hlong : maxPathBytes < (root.below [[0x61]]).length :=
    Path.lt_length_below hlength (List.cons_ne_nil _ _)
  exact ⟨hroot, isLink_staying files 2047, hordered, hsecond,
    scan_ne_ok_of_long_path hroot rfl hordered (by decide) hfirst hlong⟩

end FileSystem

end EventFinder
