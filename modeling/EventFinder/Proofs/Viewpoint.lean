import EventFinder.Proofs.Batch
import EventFinder.Proofs.Tree.Following
import EventFinder.Proofs.Tree.Scanning

/-!
# The viewpoint of a scan

A sub directory can be scanned from the directory above it or on its own, with its name in front of
the candidates and one level less. Both ways find the same in it: the candidates of the sub
directory are those of the directory above it that start with its name
(`FileSystem.candidates_scan_join`), and so they are read alike (`FileSystem.readAll_scan_join`).
The path of the sub directory is longer than that of the directory above it, though, and one that is
ignored may be too long to be scanned on its own (`FileSystem.no_scan_of_ignored_entry`).
-/

set_option autoImplicit false

namespace EventFinder

namespace Node

/-- Of the directories below the entries of a directory, those that lie below one entry are the ones
whose first name is that of the entry. -/
theorem filter_directoriesOfEntries {entries : List (Bytes × Node)} {name : Bytes} {node : Node}
    (horder : entries.Pairwise fun first second => first.1 < second.1)
    (hentry : (name, node) ∈ entries) (levels : Nat) :
    (directoriesOfEntries levels entries).filter (fun names => names.head? = some name) =
      (directoriesWithin levels node).map (name :: ·) := by
  induction entries with
  | nil => cases hentry
  | cons entry entries ih =>
    obtain ⟨other, first⟩ := entry
    obtain ⟨hfirst, hrest⟩ := List.pairwise_cons.1 horder
    rw [directoriesOfEntries_cons, List.filter_append, List.filter_map]
    obtain heq | hmem := List.mem_cons.1 hentry
    · obtain ⟨rfl, rfl⟩ := Prod.mk.inj heq
      have hothers : (directoriesOfEntries levels entries).filter
          (fun names => names.head? = some name) = [] := by
        rw [List.filter_eq_nil_iff]
        intro names hnames hhead
        obtain ⟨entry, hmem, hbelow⟩ := List.mem_flatMap.1 hnames
        obtain ⟨rest, -, rfl⟩ := List.mem_map.1 hbelow
        have hsame : entry.1 = name := by simpa using hhead
        exact List.lt_irrefl name (hsame ▸ hfirst entry hmem)
      simp [hothers, Function.comp_def]
    · have hne : other ≠ name := by
        rintro rfl
        exact List.lt_irrefl other (hfirst (other, node) hmem)
      simp [ih hrest hmem, hne, Function.comp_def]

end Node

/-! ## Selections from an entry -/

namespace ScanOptions

variable {options : ScanOptions} {visit : Visit} {levels : Nat}

/-- Nothing is found in a directory whose path is ignored. -/
theorem candidates_selected_of_ignored (hvisit : options.ignore.ignores visit.path = true)
    (directories : List (List Bytes)) :
    (options.selected visit levels directories).candidates = [] := by
  simp [selected, ignoresBelow_of_ignored hvisit]

/-- What is selected depends on the texts of the paths and on how the candidates start. -/
theorem selected_congr {others : ScanOptions} {other : Visit}
    (hignore : options.ignore = others.ignore) (hpath : visit.path = other.path)
    (hcandidate : visit.candidate = other.candidate) (directories : List (List Bytes)) :
    options.selected visit levels directories = others.selected other levels directories := by
  have hbelow : options.ignoresBelow visit = others.ignoresBelow other := by
    funext names
    rw [ignoresBelow, ignoresBelow, hignore, hpath]
  simp only [selected, hbelow, hcandidate]

/-- Candidates that start below the root can be told apart by their first names. -/
theorem filter_candidates_selected (hstart : visit.candidate = [])
    {directories : List (List Bytes)}
    (hnames : ∀ names ∈ directories, names ≠ [] ∧ ∀ name ∈ names, IsName name) (name : Bytes) :
    (options.selected visit levels directories).candidates.filter
        (fun candidate => candidate.names.head? = some name) =
      (options.selected visit levels
        (directories.filter fun names => names.head? = some name)).candidates := by
  simp only [selected, hstart, List.filter_map, List.filter_filter]
  congr 1
  apply List.filter_congr
  intro names hmem
  obtain ⟨hne, hall⟩ := hnames names hmem
  simp only [Function.comp_apply, Path.names_nil_below hne hall, Bool.and_comm]

section Entry

variable {entries : List (Bytes × Node)} {name : Bytes} {node : Node}

/-- The candidates below an entry are those of its directory that start with the name of the entry.
-/
theorem candidates_selected_child (hordered : (Node.directory entries).Ordered)
    (hnamed : (Node.directory entries).WellNamed) (hentry : (name, node) ∈ entries)
    (hstart : visit.candidate = []) :
    (options.selected (visit.child name) levels (node.directoriesWithin levels)).candidates =
      (options.selected visit (levels + 1)
        ((Node.directory entries).directoriesWithin (levels + 1))).candidates.filter
          fun candidate => candidate.names.head? = some name := by
  cases hvisit : options.ignore.ignores visit.path with
  | true =>
    have hchild : options.ignore.ignores (visit.child name).path = true :=
      IgnoreList.ignores_below hvisit [name]
    rw [candidates_selected_of_ignored hvisit, candidates_selected_of_ignored hchild,
      List.filter_nil]
  | false =>
    have horder : entries.Pairwise fun first second => first.1 < second.1 := by
      cases hordered with
      | directory names nodes => exact names
    have hnames : ∀ names ∈ Node.directoriesOfEntries levels entries,
        names ≠ [] ∧ ∀ name ∈ names, IsName name := by
      intro names hmem
      have hwithin : names ∈ (Node.directory entries).directoriesWithin (levels + 1) :=
        List.mem_cons_of_mem _ hmem
      exact ⟨fun h => Node.nil_notMem_directoriesOfEntries levels entries (h ▸ hmem),
        hnamed.isName_of_mem_directoriesWithin hordered hwithin⟩
    rw [Node.directoriesWithin_succ, selected_cons_nil hvisit,
      filter_candidates_selected hstart hnames, Node.filter_directoriesOfEntries horder hentry,
      selected_map_cons hvisit]

/-- A directory that can be followed down some levels can be followed through each of its entries.
-/
theorem Followable.child (hentry : (name, node) ∈ entries)
    (h : options.Followable visit (levels + 1)
      ((Node.directory entries).directoriesWithin (levels + 1))) :
    options.Followable (visit.child name) levels (node.directoriesWithin levels) := by
  intro names hmem hlength hignored
  have hbelow : name :: names ∈ (Node.directory entries).directoriesWithin (levels + 1) :=
    List.mem_cons_of_mem _ (List.mem_flatMap.2 ⟨(name, node), hentry, List.mem_map_of_mem hmem⟩)
  exact h (name :: names) hbelow (Nat.succ_lt_succ hlength) hignored

end Entry

end ScanOptions

/-! ## Scans of an entry -/

section Visit

variable {top : Node} {options : ScanOptions} {enterLinked : Enter} {visit : Visit}

/-- A walk below an ignored directory that does not follow links finds nothing. -/
theorem candidates_visitEntries_of_ignored (hlinks : options.followLinks = false)
    (hvisit : options.ignore.ignores visit.path = true) {entries : List (Bytes × Node)}
    {found : Findings} (h : visitEntries top options enterLinked visit entries = .ok found) :
    found.candidates = [] := by
  induction entries generalizing found with
  | nil =>
    cases h
    rfl
  | cons entry entries ih =>
    obtain ⟨name, node⟩ := entry
    obtain ⟨first, others, hfirst, hothers, rfl⟩ := visitEntries_cons_eq_ok.1 h
    have hchild : options.ignore.ignores (visit.child name).path = true :=
      IgnoreList.ignores_below hvisit [name]
    have hselects : options.Selects (visit.child name) 0 (node.directoriesWithin 0)
        (visitNode top options enterLinked (visit.child name) node) :=
      visitNode_selects_of_not_entered hlinks (.inr hchild)
    obtain ⟨-, rfl⟩ := (hselects first).1 hfirst
    rw [Findings.append, ScanOptions.candidates_selected_of_ignored hchild, ih hothers,
      List.append_nil]

end Visit

namespace FileSystem

variable {files : FileSystem} {root : Path} {place : Place} {options : ScanOptions}

/-- The candidates of a scan that does not enter links are a selection, whatever the root is. -/
theorem candidates_of_scan (hroot : files.resolve root = .ok place)
    (hdirectory : place.node.isDirectory = true) (hlinks : options.followLinks = false)
    (hdepth : options.depth ≠ 0) {report : ScanReport}
    (hreport : files.scan root options = .ok report) :
    options.Followable (startVisit root place options) options.depth
        (place.node.directoriesWithin options.depth) ∧
      report.candidates = (options.selected (startVisit root place options) options.depth
        (place.node.directoriesWithin options.depth)).candidates := by
  by_cases hlink : files.isLink root = true → options.ignore.ignores root = false
  · obtain ⟨hfollowable, rfl⟩ :=
      (scan_eq_ok_iff_selected hroot hdirectory hlinks hdepth hlink).1 hreport
    exact ⟨hfollowable, rfl⟩
  -- An ignored root that is a link is looked into, but every directory in it is ignored.
  simp only [Classical.not_imp, Bool.not_eq_false] at hlink
  obtain ⟨hislink, hignored⟩ := hlink
  have hstart : options.ignore.ignores (startVisit root place options).path = true := hignored
  refine ⟨ScanOptions.followable_of_ignored hstart _, ?_⟩
  rw [ScanOptions.candidates_selected_of_ignored hstart]
  obtain ⟨names, node, linksLeft⟩ := place
  cases node with
  | file content => cases hdirectory
  | link target => cases hdirectory
  | directory entries =>
    rw [scan_eq_walk hroot] at hreport
    obtain ⟨found, hfound, rfl⟩ := map_eq_ok_iff.1 hreport
    have hislink : files.isLink (startVisit root ⟨names, .directory entries, linksLeft⟩
        options).path = true := hislink
    have hopen : options.ignore.ignores (startVisit root ⟨names, .directory entries, linksLeft⟩
        options).openHere.path = true := hignored
    simp only [walk, hislink, hlinks, Bool.not_false, Bool.and_true, if_true] at hfound
    exact candidates_visitEntries_of_ignored hlinks hopen hfound

section Join

variable {entries below : List (Bytes × Node)} {name : Bytes} {depth : Nat} {ignore : IgnoreList}
  {report : ScanReport}

/-- What a scan of a sub directory on its own reports, if the directory above it can be scanned. -/
theorem scan_join_eq_ok_iff (hroot : files.resolve root = .ok place)
    (hplace : place.node = .directory entries) (hname : IsName name)
    (hentry : entries.lookup name = some (.directory below)) (hdepth : depth ≠ 0)
    (hreport : files.scan root { depth := depth + 1, ignore } = .ok report) {inner : ScanReport} :
    let start := startVisit root place { depth := depth + 1, ignore }
    files.scan (root.join name) { depth, ignore, includeParent := true } = .ok inner ↔
      ((root.join name).length ≤ maxPathBytes ∧ name.length ≤ maxNameBytes) ∧
        inner = (ScanOptions.selected { depth := depth + 1, ignore } (start.child name) depth
          ((Node.directory below).directoriesWithin depth)).report depth := by
  intro start
  have hjoin := resolve_join hroot hplace hname hentry
  by_cases hlong : maxPathBytes < (root.join name).length ∨ maxNameBytes < name.length
  · have hshort : ¬ ((root.join name).length ≤ maxPathBytes ∧ name.length ≤ maxNameBytes) := by
      omega
    rw [if_pos hlong] at hjoin
    simp [scan, hjoin, hshort]
  have hshort : (root.join name).length ≤ maxPathBytes ∧ name.length ≤ maxNameBytes := by omega
  rw [if_neg hlong] at hjoin
  let options : ScanOptions := { depth, ignore, includeParent := true }
  let origin := startVisit (root.join name)
    ⟨place.names ++ [name], .directory below, place.linksLeft⟩ options
  have hdirectory : place.node.isDirectory = true := by rw [hplace]; rfl
  obtain ⟨hfollowable, -⟩ := candidates_of_scan hroot hdirectory rfl depth.succ_ne_zero hreport
  rw [hplace] at hfollowable
  have hbelow : options.Followable origin depth ((Node.directory below).directoriesWithin depth) :=
    hfollowable.child (mem_of_lookup_eq_some hentry)
  -- The name in front of the candidates is the one that they start with from the directory above.
  have hcandidate : origin.candidate = (start.child name).candidate := by
    show directoryName (root.join name) _ = Path.join [] name
    rw [directoryName_join (follow_of_resolve hroot).1 hname]
    simp [Path.join]
  have hselected : options.selected origin depth ((Node.directory below).directoriesWithin depth) =
      ScanOptions.selected { depth := depth + 1, ignore } (start.child name) depth
        ((Node.directory below).directoriesWithin depth) := by
    refine ScanOptions.selected_congr ?_ ?_ hcandidate _ <;> rfl
  have hlink : files.isLink (root.join name) = true →
      options.ignore.ignores (root.join name) = false := by
    simp [isLink_join hroot hplace hname hentry]
  rw [scan_eq_ok_iff_selected hjoin rfl rfl hdepth hlink, ← hselected]
  simp only [hshort, true_and]
  exact and_iff_right hbelow

/-- The candidates of a sub directory that is scanned on its own are those candidates of the
directory above it that start with its name. -/
theorem candidates_scan_join (hroot : files.resolve root = .ok place)
    (hplace : place.node = .directory entries) (hordered : place.node.Ordered)
    (hnamed : place.node.WellNamed) (hname : IsName name)
    (hentry : entries.lookup name = some (.directory below)) (hdepth : depth ≠ 0)
    (hreport : files.scan root { depth := depth + 1, ignore } = .ok report) {inner : ScanReport}
    (hinner : files.scan (root.join name) { depth, ignore, includeParent := true } = .ok inner) :
    inner.candidates =
      report.candidates.filter fun candidate => candidate.names.head? = some name := by
  obtain ⟨-, rfl⟩ := (scan_join_eq_ok_iff hroot hplace hname hentry hdepth hreport).1 hinner
  have hdirectory : place.node.isDirectory = true := by rw [hplace]; rfl
  obtain ⟨-, hcandidates⟩ := candidates_of_scan hroot hdirectory rfl depth.succ_ne_zero hreport
  rw [hcandidates, hplace]
  rw [hplace] at hordered hnamed
  exact ScanOptions.candidates_selected_child hordered hnamed
    (mem_of_lookup_eq_some hentry) rfl

/-- It is a question of viewpoint only whether a sub directory is scanned on its own, with its name
in front of the candidates, or from the directory above it: what is read is the same. If the
directory above can be scanned, so can the sub directory on its own, as long as its path and its
name are not too long. -/
theorem readAll_scan_join {pattern : Pattern} (hslash : '/' ∈ pattern.source)
    (hroot : files.resolve root = .ok place) (hplace : place.node = .directory entries)
    (hordered : place.node.Ordered) (hnamed : place.node.WellNamed)
    (hentry : entries.lookup name = some (.directory below)) (ignore : IgnoreList)
    (mode : NumberMode)
    (hreport : files.scan root { depth := levels pattern.source false, ignore } = .ok report) :
    ((∃ inner, files.scan (root.join name)
          { depth := levels pattern.source true, ignore, includeParent := true } = .ok inner) ↔
        (root.join name).length ≤ maxPathBytes ∧ name.length ≤ maxNameBytes) ∧
      ∀ inner, files.scan (root.join name)
          { depth := levels pattern.source true, ignore, includeParent := true } = .ok inner →
        (pattern.readAll mode inner.candidates).outcomes =
          (pattern.readAll mode report.candidates).outcomes.filter fun outcome =>
            outcome.path.names.head? = some name := by
  have hsource : pattern.source ≠ [] := List.ne_nil_of_mem hslash
  have hdepth : levels pattern.source true ≠ 0 := by
    simpa [levels, hsource, List.count_eq_zero] using hslash
  have hlevels : levels pattern.source false = levels pattern.source true + 1 := by
    simp [levels, hsource]
  rw [hlevels] at hreport
  have hname : IsName name := by
    rw [hplace] at hnamed
    cases hnamed with
    | directory names nodes => exact names _ (mem_of_lookup_eq_some hentry)
  constructor
  · simp only [scan_join_eq_ok_iff hroot hplace hname hentry hdepth hreport, exists_and_left,
      exists_eq, and_true]
  · intro inner hinner
    have hcandidates := candidates_scan_join hroot hplace hordered hnamed hname hentry hdepth
      hreport hinner
    simp only [Pattern.readAll, Batch.ofOutcomes_eq, hcandidates, List.filter_map]
    rfl

end Join

/-- One of two directories in the current directory is scanned on its own and from above. -/
theorem readAll_scan_of_two_entries :
    let pattern : Pattern := ⟨"%y/%V".toList, [.field .year, .literal ['/'], .field .venue]⟩
    let files : FileSystem := ⟨.ofDirectories [[[0x61], [0x62]], [[0x63], [0x64]]], []⟩
    let report : ScanReport := ⟨[[0x61, slash, 0x62], [0x63, slash, 0x64]], 0, 2⟩
    files.resolve [dot] = .ok ⟨[], files.top, maxLinks⟩ ∧ files.top.Ordered ∧ files.top.WellNamed ∧
      files.scan [dot] { depth := levels pattern.source false } = .ok report ∧
      ∃ inner, files.scan (Path.join [dot] [0x61])
          { depth := levels pattern.source true, includeParent := true } = .ok inner ∧
        (pattern.readAll .strict inner.candidates).outcomes =
          (pattern.readAll .strict report.candidates).outcomes.filter fun outcome =>
            outcome.path.names.head? = some [0x61] := by
  intro pattern files report
  have hroot : files.resolve [dot] = .ok ⟨[], files.top, maxLinks⟩ := rfl
  have hordered : files.top.Ordered := Node.ordered_ofDirectories _
  have hnamed : files.top.WellNamed := Node.wellNamed_ofDirectories (by decide)
  have hreport : files.scan [dot] { depth := levels pattern.source false } = .ok report := by
    decide +kernel
  let inside : List (Bytes × Node) := [([0x62], .directory [])]
  let entries : List (Bytes × Node) :=
    [([0x61], .directory inside), ([0x63], .directory [([0x64], .directory [])])]
  have hplace : files.top = .directory entries := rfl
  have hentry : entries.lookup [0x61] = some (.directory inside) := rfl
  obtain ⟨hscan, hread⟩ := readAll_scan_join (by decide) hroot hplace hordered hnamed hentry .none
    .strict hreport
  obtain ⟨inner, hinner⟩ := hscan.2 (by decide)
  exact ⟨hroot, hordered, hnamed, hreport, inner, hinner, hread inner hinner⟩

end FileSystem

/-! ## An entry whose path is too long -/

namespace Path

/-- The path that stays in place is shown with dots and slashes only. -/
theorem shown_staying (times : Nat) : ∀ c ∈ (staying times).shown, c = '.' ∨ c = '/' := by
  induction times with
  | zero =>
    have hshown : (staying 0).shown = ['.'] := rfl
    simp [hshown]
  | succ times ih =>
    have hshown : (staying (times + 1)).shown = '.' :: '/' :: (staying times).shown :=
      Bytes.toText_append_slash [dot] (staying times)
    simpa [hshown] using ih

/-- A name is joined to the path that stays in place behind a slash. -/
theorem join_staying (times : Nat) (name : Bytes) :
    (staying times).join name = staying times ++ slash :: name := by
  simp [join, staying_ne_nil, endsWithSlash_staying]

/-- The path that stays in place mentions no name. -/
theorem not_mentions_staying (times : Nat) : ¬ (staying times).Mentions [['a']] := by
  rintro ⟨entry, hmem, -, hpart⟩
  rw [List.mem_singleton.1 hmem] at hpart
  have hchar : 'a' = '.' ∨ 'a' = '/' := shown_staying times 'a' (hpart.subset (by simp))
  simp at hchar

/-- Below the path that stays in place, a path mentions the name that it went down by. -/
theorem mentions_below_staying (times : Nat) :
    ((staying times).below [[0x61]]).Mentions [['a']] := by
  refine ⟨_, List.mem_singleton.2 rfl, by simp, Bytes.toText (staying times) ++ ['/'], [], ?_⟩
  rw [below_cons, below_nil, join_staying, shown, Bytes.toText_append_slash, List.append_nil,
    List.append_assoc]
  rfl

end Path

namespace FileSystem

/-- An ignored directory below a root whose path is as long as can be followed does not keep the
root from being scanned, but its own path is too long to be scanned. -/
theorem no_scan_of_ignored_entry :
    let pattern : Pattern := ⟨"%y/%V".toList, [.field .year, .literal ['/'], .field .venue]⟩
    let files : FileSystem := ⟨.ofDirectories [[[0x61]]], []⟩
    let ignore : IgnoreList := .ofEntries [['a']]
    let root := Path.staying 2047
    Pattern.compile pattern.source = .ok pattern ∧ '/' ∈ pattern.source ∧
      files.resolve root = .ok ⟨[], files.top, maxLinks⟩ ∧ files.top.Ordered ∧
      files.top.WellNamed ∧ files.top.HasDirectory [[0x61]] ∧
      files.scan root { depth := levels pattern.source false, ignore } = .ok ⟨[], 1, 2⟩ ∧
      ∀ inner, files.scan (root.join [0x61])
        { depth := levels pattern.source true, ignore, includeParent := true } ≠ .ok inner := by
  intro pattern files ignore root
  have hroot : files.resolve root = .ok ⟨[], files.top, maxLinks⟩ :=
    resolve_staying rfl (by decide)
  have hordered : files.top.Ordered := Node.ordered_ofDirectories _
  have hnamed : files.top.WellNamed := Node.wellNamed_ofDirectories (by decide)
  have hmentions : ¬ root.Mentions [['a']] := Path.not_mentions_staying 2047
  have hentry : (root.below [[0x61]]).Mentions [['a']] := Path.mentions_below_staying 2047
  have hlength : maxPathBytes ≤ root.length := (Path.length_staying 2047).ge
  have hlong : maxPathBytes < (root.below [[0x61]]).length :=
    Path.lt_length_below hlength (List.cons_ne_nil _ _)
  have hshort : root.length ≤ maxPathBytes := (Path.length_staying 2047).le
  -- From here on the bytes of the path do not matter.
  clear_value root
  rw [Path.below_cons, Path.below_nil] at hlong hentry
  have hdepth : levels pattern.source false = 2 := by decide +kernel
  have hscan : files.scan root { depth := 2, ignore } = .ok ⟨[], 1, 2⟩ := by
    have hwithin : files.top.directoriesWithin 2 = [[], [[0x61]]] := rfl
    rw [scan_ofEntries_eq_ok_iff hroot rfl hordered two_ne_zero (fun _ => hmentions)]
    constructor
    · intro names hlevel hnames hunmentioned
      have hmem : names ∈ files.top.directoriesWithin 2 :=
        (Node.mem_directoriesWithin_iff hordered).2 ⟨hlevel.le, hnames⟩
      rw [hwithin, List.mem_pair] at hmem
      obtain rfl | rfl := hmem
      · exact hshort
      · exact absurd hentry hunmentioned
    · simp [hwithin, hmentions, hentry]
  refine ⟨by decide +kernel, by decide, hroot, hordered, hnamed, ⟨[], rfl⟩, ?_, ?_⟩
  · rw [hdepth]
    exact hscan
  · intro inner hinner
    have hjoin := resolve_join hroot rfl (by decide : IsName [0x61]) rfl
    rw [if_pos (.inl hlong)] at hjoin
    rw [scan, hjoin] at hinner
    cases hinner

end FileSystem

end EventFinder
