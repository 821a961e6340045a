import EventFinder.Proofs.Tree.Scanning
import EventFinder.Proofs.Tree.Termination

/-!
# The first failure of a scan

A scan succeeds exactly if it fails nowhere, and its error is that of the first place where it does,
in the order of the names (`FileSystem.scan_fails_first`). The walk decides this for one part of the
tree after the other (`FileSystem.Decides`): for an entry, for the entries of a directory together,
and for a directory that a link leads to.

For this the walk has to know where it stands. Its path leads to the directory that it says, with as
many links left as it says, and the directories that it says are open are those on the way
(`FileSystem.StandsAt`, `FileSystem.HasOpen`). Following a link uses up one of the links that are
left at least, so those are never used up before they are needed (`FileSystem.enter_decides`).
-/

set_option autoImplicit false

namespace EventFinder

/-- What lies behind an earlier name comes before what lies behind a later one. -/
theorem lt_of_concat_prefix {names first second : List Bytes} {name other : Bytes}
    (hlt : name < other) (hfirst : names ++ [name] <+: first)
    (hsecond : names ++ [other] <+: second) : first < second := by
  obtain ⟨rest, rfl⟩ := hfirst
  obtain ⟨rest', rfl⟩ := hsecond
  rw [List.append_assoc, List.append_assoc]
  exact List.append_left_lt (List.cons_lt_cons_iff.2 (.inl hlt))

namespace FileSystem

/-- The names of a place and of all places below it. -/
def within (names : List Bytes) : Set (List Bytes) :=
  {others | names <+: others}

/-- The result of a walk through a part of the tree is an error exactly if a scan fails there, and
then it is the error of the first place. -/
def Decides (files : FileSystem) (root : Path) (options : ScanOptions)
    (result : Except ScanError Findings) (part : Set (List Bytes)) : Prop :=
  match result with
  | .ok _ => ∀ names ∈ part, ∀ e, ¬ files.FailsAt root options names e
  | .error e => ∃ names ∈ part, files.FailsAt root options names e ∧
      ∀ earlier ∈ part, earlier < names → ∀ e', ¬ files.FailsAt root options earlier e'

/-- A visit stands at the place that the names lead to from the root, and knows the directories on
the way there. -/
structure StandsAt (files : FileSystem) (root : Path) (visit : Visit) (names : List Bytes) :
    Prop where
  path : visit.path = root.below names
  depth : visit.depth = names.length
  opened : ∀ directory, directory ∈ visit.opened ↔ files.IsOnWay root names directory

/-- A visit has the directory open that the names lead to from the root, with these entries. -/
structure HasOpen (files : FileSystem) (root : Path) (visit : Visit) (names : List Bytes)
    (entries : List (Bytes × Node)) : Prop where
  path : visit.path = root.below names
  depth : visit.depth = names.length
  opened : ∀ directory, directory ∈ visit.opened ↔ directory ∈ files.passed root names
  leads : files.resolve (root.below names) = .ok ⟨visit.names, .directory entries, visit.linksLeft⟩

variable {files : FileSystem} {root : Path} {options : ScanOptions} {visit : Visit}
  {names : List Bytes} {name : Bytes} {node : Node} {entries : List (Bytes × Node)}
  {enterLinked : Enter}

/-! ## Parts of a tree -/

/-- Only the places of a part matter at which a scan fails. -/
theorem Decides.congr {result : Except ScanError Findings} {part other : Set (List Bytes)}
    (h : files.Decides root options result part)
    (hpart : ∀ names e, files.FailsAt root options names e → (names ∈ part ↔ names ∈ other)) :
    files.Decides root options result other := by
  cases result with
  | ok found =>
    intro names hnames e hfails
    exact h names ((hpart names e hfails).2 hnames) e hfails
  | error e =>
    obtain ⟨names, hnames, hfails, hfirst⟩ := h
    refine ⟨names, (hpart names e hfails).1 hnames, hfails, fun earlier hearlier hlt e' he' => ?_⟩
    exact hfirst earlier ((hpart earlier e' he').2 hearlier) hlt e' he'

/-- A failure at a place comes before all those below it. -/
theorem FailsAt.decides {e : ScanError} (h : files.FailsAt root options names e) :
    files.Decides root options (.error e) (within names) := by
  refine ⟨names, List.prefix_rfl, h, fun earlier hearlier hlt => ?_⟩
  exact absurd hlt (List.IsPrefix.le hearlier)

/-- A place that is not entered has no failures below it. -/
theorem decides_of_not_enters {found : Findings} (hfree : ∀ e, ¬ files.FailsAt root options names e)
    (henters : ¬ files.Enters root options names) :
    files.Decides root options (.ok found) (within names) := by
  rintro _ ⟨rest, rfl⟩ e hfails
  cases rest with
  | nil => exact hfree e (by rwa [List.append_nil] at hfails)
  | cons name rest => exact henters hfails.of_append.1

/-- A walk decides about entries if it decides about the first one and about the others, and all
places of the first one come before those of the others. -/
theorem decides_visitEntries_cons {rest : List (Bytes × Node)} {first others : Set (List Bytes)}
    (hfirst : files.Decides root options
      (visitNode files.top options enterLinked (visit.child name) node) first)
    (hothers : files.Decides root options
      (visitEntries files.top options enterLinked visit rest) others)
    (horder : ∀ earlier ∈ first, ∀ later ∈ others, earlier < later) :
    files.Decides root options
      (visitEntries files.top options enterLinked visit ((name, node) :: rest))
      (first ∪ others) := by
  rw [visitEntries]
  cases hnode : visitNode files.top options enterLinked (visit.child name) node with
  | error e =>
    rw [hnode] at hfirst
    obtain ⟨names, hnames, hfails, hbefore⟩ := hfirst
    refine ⟨names, .inl hnames, hfails, ?_⟩
    rintro earlier (hearlier | hlater) hlt
    · exact hbefore earlier hearlier hlt
    · exact absurd hlt (List.lt_asymm (horder names hnames earlier hlater))
  | ok found =>
    rw [hnode] at hfirst
    cases hrest : visitEntries files.top options enterLinked visit rest with
    | error e =>
      rw [hrest] at hothers
      obtain ⟨names, hnames, hfails, hbefore⟩ := hothers
      refine ⟨names, .inr hnames, hfails, ?_⟩
      rintro earlier (hearlier | hlater) hlt
      · exact hfirst earlier hearlier
      · exact hbefore earlier hlater hlt
    | ok more =>
      rw [hrest] at hothers
      rintro names (hnames | hnames)
      · exact hfirst names hnames
      · exact hothers names hnames

/-! ## Where a visit stands -/

/-- A visit to an entry of the open directory stands at the entry. -/
theorem HasOpen.child (h : files.HasOpen root visit names entries) (name : Bytes) :
    files.StandsAt root (visit.child name) (names ++ [name]) where
  path := by rw [Path.below_concat, ← h.path]; rfl
  depth := by rw [List.length_append, List.length_singleton, ← h.depth]; rfl
  opened directory := (h.opened directory).trans isOnWay_concat_iff.symm

/-- The entries of the open directory are in the order of their names. -/
theorem HasOpen.pairwise (h : files.HasOpen root visit names entries)
    (hordered : files.top.Ordered) :
    entries.Pairwise fun first second => first.1 < second.1 := by
  cases hordered.of_at? (at?_of_resolve h.leads) with
  | directory hnames => exact hnames

/-- The entries of the open directory are well named. -/
theorem HasOpen.wellNamed (h : files.HasOpen root visit names entries)
    (htop : files.top.WellNamed) : ∀ entry ∈ entries, entry.2.WellNamed := by
  cases (htop.of_at? (at?_of_resolve h.leads)).1 with
  | directory _ hnodes => exact hnodes

/-- What is looked up in the open directory is an entry of it. -/
theorem HasOpen.hasEntry (h : files.HasOpen root visit names entries)
    (hnamed : entries.lookup name = some node) :
    files.HasEntry (root.below names) name node :=
  ⟨_, _, _, h.leads, hnamed⟩

/-- Every entry of the open directory is found by its name. -/
theorem HasOpen.lookup_of_mem (h : files.HasOpen root visit names entries)
    (hordered : files.top.Ordered) {entry : Bytes × Node} (hmem : entry ∈ entries) :
    entries.lookup entry.1 = some entry.2 :=
  (Node.lookup_eq_some_iff_mem (h.pairwise hordered)).2 hmem

/-- A visit that opens the directory at which it stands has it open. -/
theorem StandsAt.openHere (h : files.StandsAt root visit names)
    (hleads : files.resolve (root.below names) =
      .ok ⟨visit.names, .directory entries, visit.linksLeft⟩) :
    files.HasOpen root visit.openHere names entries where
  path := h.path
  depth := h.depth
  opened directory := by
    have hhere : directory = visit.names ↔ files.LeadsTo (root.below names) directory := by
      constructor
      · rintro rfl
        exact ⟨_, _, hleads⟩
      · exact fun hother => hother.unique ⟨_, _, hleads⟩
    exact List.mem_cons.trans ((or_congr hhere (h.opened directory)).trans or_comm)
  leads := hleads

/-- A visit that follows a link still stands at the link. -/
theorem StandsAt.movedTo (h : files.StandsAt root visit names) (place : Place) :
    files.StandsAt root (visit.movedTo place) names :=
  ⟨h.path, h.depth, h.opened⟩

/-- A visit is to be entered exactly if the scan goes on at its place. -/
theorem StandsAt.verdict_eq_entered_iff (h : files.StandsAt root visit names) :
    options.verdict visit = .entered ↔ options.GoesOn root names := by
  have hnil : names = [] ↔ names.length = 0 := List.length_eq_zero_iff.symm
  simp only [ScanOptions.verdict, ScanOptions.GoesOn, h.path, h.depth, hnil]
  split_ifs with hignored hcollected
  · simp [hignored]
  · simp only [false_iff, not_and]
    omega
  · simp only [true_iff]
    exact ⟨Bool.eq_false_of_not_eq_true hignored, by omega⟩

/-! ## Directories and their entries -/

/-- The walk through entries in the order of their names decides about all of them together, if it
does so for every one. -/
theorem decides_visitEntries (hordered : entries.Pairwise fun first second => first.1 < second.1)
    (hnodes : ∀ entry ∈ entries, files.Decides root options
      (visitNode files.top options enterLinked (visit.child entry.1) entry.2)
      (within (names ++ [entry.1]))) :
    files.Decides root options (visitEntries files.top options enterLinked visit entries)
      {others | ∃ entry ∈ entries, names ++ [entry.1] <+: others} := by
  induction entries with
  | nil =>
    rintro others ⟨entry, hmem, -⟩
    cases hmem
  | cons entry entries ih =>
    obtain ⟨hlt, hrest⟩ := List.pairwise_cons.1 hordered
    obtain ⟨hentry, hentries⟩ := List.forall_mem_cons.1 hnodes
    refine (decides_visitEntries_cons hentry (ih hrest hentries) ?_).congr ?_
    · rintro earlier hearlier later ⟨other, hother, hlater⟩
      exact lt_of_concat_prefix (hlt other hother) hearlier hlater
    · intro others e _
      simp [within]

/-- The walk through the entries of a directory decides about the directory, if it does so for every
entry and the directory itself can be entered. -/
theorem HasOpen.decides (h : files.HasOpen root visit names entries)
    (hordered : files.top.Ordered) (hfree : ∀ e, ¬ files.FailsAt root options names e)
    (hnodes : ∀ entry ∈ entries, files.Decides root options
      (visitNode files.top options enterLinked (visit.child entry.1) entry.2)
      (within (names ++ [entry.1]))) :
    files.Decides root options (visitEntries files.top options enterLinked visit entries)
      (within names) := by
  refine (decides_visitEntries (h.pairwise hordered) hnodes).congr ?_
  rintro others e hfails
  constructor
  · rintro ⟨entry, -, hprefix⟩
    exact (List.prefix_append names [entry.1]).trans hprefix
  · -- What fails below the directory fails at or below one of its entries.
    rintro ⟨rest, rfl⟩
    cases rest with
    | nil => exact absurd (by rwa [List.append_nil] at hfails) (hfree e)
    | cons name rest =>
      obtain ⟨-, node, directory, others, linksLeft, hleads, hnamed⟩ := hfails.of_append
      rw [h.leads] at hleads
      cases hleads
      exact ⟨(name, node), mem_of_lookup_eq_some hnamed, rest, by simp⟩

/-- The visit of a directory decides about it, if the walk through its entries does. -/
theorem StandsAt.decides (h : files.StandsAt root visit names)
    (hleads : (root.below names).length ≤ maxPathBytes → files.resolve (root.below names) =
      .ok ⟨visit.names, .directory entries, visit.linksLeft⟩)
    (henters : files.Enters root options names ↔
      options.GoesOn root names ∧ (root.below names).length ≤ maxPathBytes)
    (hfails : ∀ e, files.FailsAt root options names e ↔ options.GoesOn root names ∧
      maxPathBytes < (root.below names).length ∧ e = .ofLookup .nameTooLong (root.below names))
    (hentries : files.HasOpen root visit.openHere names entries →
      files.Enters root options names → (∀ e, ¬ files.FailsAt root options names e) →
      files.Decides root options
        (visitEntries files.top options enterLinked visit.openHere entries) (within names)) :
    files.Decides root options
      (visitNode files.top options enterLinked visit (.directory entries)) (within names) := by
  by_cases hgoesOn : options.GoesOn root names
  · rw [visitNode, h.verdict_eq_entered_iff.2 hgoesOn]
    by_cases hlong : maxPathBytes < (root.below names).length
    · have htooLong : visit.isTooLong = true := by
        rw [Visit.isTooLong, h.path]
        exact decide_eq_true hlong
      simp only [htooLong, if_true, h.path]
      exact ((hfails _).2 ⟨hgoesOn, hlong, rfl⟩).decides
    · have hshort : visit.isTooLong = false := by
        rw [Visit.isTooLong, h.path]
        exact decide_eq_false hlong
      have hlength := Nat.le_of_not_lt hlong
      simp only [hshort, Bool.false_eq_true, if_false]
      refine hentries (h.openHere (hleads hlength)) (henters.2 ⟨hgoesOn, hlength⟩) fun e he => ?_
      exact hlong ((hfails e).1 he).2.1
  · have hfree : ∀ e, ¬ files.FailsAt root options names e :=
      fun e he => hgoesOn ((hfails e).1 he).1
    have hnotEntered : ¬ files.Enters root options names := fun he => hgoesOn (henters.1 he).1
    rw [visitNode]
    cases hverdict : options.verdict visit with
    | entered => exact absurd (h.verdict_eq_entered_iff.1 hverdict) hgoesOn
    | ignored => exact decides_of_not_enters hfree hnotEntered
    | collected => exact decides_of_not_enters hfree hnotEntered

/-! ## Links -/

/-- A visit stands in front of a directory that its path leads to, and the scan does not fail there
but enters it unless it is ignored or a candidate. -/
structure StandsBefore (files : FileSystem) (root : Path) (options : ScanOptions) (visit : Visit)
    (names : List Bytes) (entries : List (Bytes × Node)) : Prop where
  standsAt : files.StandsAt root visit names
  leads : files.resolve (root.below names) = .ok ⟨visit.names, .directory entries, visit.linksLeft⟩
  free : ∀ e, ¬ files.FailsAt root options names e
  enters_iff : files.Enters root options names ↔ options.GoesOn root names

/-- The way to enter linked directories decides about those with fewer links left. -/
def DecidesLinked (files : FileSystem) (root : Path) (options : ScanOptions) (linksLeft : Nat)
    (enterLinked : Enter) : Prop :=
  ∀ visit names entries, visit.linksLeft < linksLeft →
    files.StandsBefore root options visit names entries →
    files.Decides root options (enterLinked visit entries) (within names)

section Walk

variable (htop : files.top.WellNamed) (hshort : files.top.ShortNamed)
include htop hshort

/-- A visit follows a link to where its path leads. -/
theorem HasOpen.follow_eq {target : Path} (h : files.HasOpen root visit names entries)
    (hnamed : entries.lookup name = some (.link target)) :
    (visit.child name).follow files.top target = files.resolve (root.below (names ++ [name])) := by
  have hpath : (visit.child name).path = (root.below names).join name := by
    rw [← h.path]
    rfl
  have hnames : (visit.child name).names.dropLast = visit.names := List.dropLast_concat
  rw [Visit.follow, hnames, Visit.isTooLong, hpath, Path.below_concat,
    resolve_of_link htop hshort h.leads hnamed]
  simp only [decide_eq_true_eq]
  rfl

/-- A link that leads somewhere uses up one of the links that are left. -/
theorem HasOpen.linksLeft_lt {target : Path} {place : Place}
    (h : files.HasOpen root visit names entries)
    (hnamed : entries.lookup name = some (.link target))
    (hpath : files.resolve (root.below (names ++ [name])) = .ok place) :
    place.linksLeft < visit.linksLeft := by
  rw [Path.below_concat, resolve_of_link htop hshort h.leads hnamed] at hpath
  split_ifs at hpath
  exact linksLeft_lt_of_followLink hpath

/-- The visit of a link decides about it. -/
theorem HasOpen.decides_link {target : Path} (h : files.HasOpen root visit names entries)
    (hnamed : entries.lookup name = some (.link target))
    (henters : files.Enters root options names)
    (hlinked : files.DecidesLinked root options visit.linksLeft enterLinked) :
    files.Decides root options
      (visitNode files.top options enterLinked (visit.child name) (.link target))
      (within (names ++ [name])) := by
  have hmeets : files.Meets root options (names ++ [name]) (.link target) :=
    meets_concat_iff.2 ⟨henters, h.hasEntry hnamed⟩
  have hstands := h.child name
  rw [visitNode]
  by_cases hfollowed : options.followLinks = true
  swap
  · rw [if_neg hfollowed]
    exact decides_of_not_enters (fun e he => hfollowed ((failsAt_iff_of_link hmeets).1 he).1)
      fun he => hfollowed ((enters_iff_of_link hmeets).1 he).1
  rw [if_pos hfollowed, h.follow_eq htop hshort hnamed]
  cases hpath : files.resolve (root.below (names ++ [name])) with
  | error cause =>
    rw [hstands.path]
    exact (FailsAt.badLink hmeets hfollowed hpath).decides
  | ok place =>
    have hlinksLeft := h.linksLeft_lt htop hshort hnamed hpath
    obtain ⟨directory, found, linksLeft⟩ := place
    cases found with
    | file content =>
      obtain ⟨hfree, hnotEntered⟩ := passedOver_of_link hmeets hpath rfl
      exact decides_of_not_enters hfree hnotEntered
    | link other =>
      obtain ⟨hfree, hnotEntered⟩ := passedOver_of_link hmeets hpath rfl
      exact decides_of_not_enters hfree hnotEntered
    | directory below =>
      have hleads : files.LeadsTo (root.below (names ++ [name])) directory := ⟨_, _, hpath⟩
      have hopened := hstands.opened directory
      by_cases hloop : directory ∈ (visit.child name).opened
      · simp only [if_pos hloop, hstands.path]
        exact (FailsAt.loop hmeets hfollowed hleads (hopened.1 hloop)).decides
      · have hnew : ¬ files.IsOnWay root (names ++ [name]) directory := fun h => hloop (hopened.2 h)
        simp only [if_neg hloop]
        refine hlinked _ _ _ hlinksLeft ⟨hstands.movedTo _, hpath,
          fun e => not_failsAt_of_new_link hmeets hleads hnew, ?_⟩
        rw [enters_iff_of_link hmeets]
        exact ⟨fun he => he.2.1, fun hgoesOn => ⟨hfollowed, hgoesOn, directory, hleads, hnew⟩⟩

/-! ## The walk -/

variable (hordered : files.top.Ordered)
include hordered

/-- The visit of an entry decides about it, if the way to enter linked directories does. -/
theorem visitNode_decides (hnode : node.WellNamed) (h : files.HasOpen root visit names entries)
    (hnamed : entries.lookup name = some node) (henters : files.Enters root options names)
    (hlinked : files.DecidesLinked root options visit.linksLeft enterLinked) :
    files.Decides root options (visitNode files.top options enterLinked (visit.child name) node)
      (within (names ++ [name])) := by
  induction hnode generalizing visit names name entries with
  | file content =>
    have hmeets := meets_concat_iff.2 ⟨henters, h.hasEntry hnamed⟩
    exact decides_of_not_enters (fun e => not_failsAt_of_file hmeets) (not_enters_of_file hmeets)
  | link target => exact h.decides_link htop hshort hnamed henters hlinked
  | @directory below _ _ ih =>
    have hmeets := meets_concat_iff.2 ⟨henters, h.hasEntry hnamed⟩
    refine (h.child name).decides (fun hlength => ?_) (enters_iff_of_directory hmeets)
      (fun e => failsAt_iff_of_directory hmeets) fun hopen hentersBelow hfree => ?_
    · rw [Path.below_concat] at hlength ⊢
      exact resolve_of_directory htop hshort h.leads hnamed hlength
    · exact hopen.decides hordered hfree fun entry hmem =>
        ih entry hmem hopen (hopen.lookup_of_mem hordered hmem) hentersBelow hlinked

/-- The walk through a directory that is open decides about it. -/
theorem visitEntries_decides (h : files.HasOpen root visit names entries)
    (henters : files.Enters root options names)
    (hfree : ∀ e, ¬ files.FailsAt root options names e)
    (hlinked : files.DecidesLinked root options visit.linksLeft enterLinked) :
    files.Decides root options (visitEntries files.top options enterLinked visit entries)
      (within names) :=
  h.decides hordered hfree fun entry hmem =>
    visitNode_decides htop hshort hordered (h.wellNamed htop entry hmem) h
      (h.lookup_of_mem hordered hmem) henters hlinked

/-- The visit of a directory that it stands in front of decides about it. -/
theorem StandsBefore.decides (h : files.StandsBefore root options visit names entries)
    (hlinked : files.DecidesLinked root options visit.linksLeft enterLinked) :
    files.Decides root options (visitNode files.top options enterLinked visit (.directory entries))
      (within names) := by
  have hlength : (root.below names).length ≤ maxPathBytes := length_le_of_resolve h.leads
  refine h.standsAt.decides (fun _ => h.leads) (by simp only [h.enters_iff, hlength, and_true])
    (fun e => ?_) fun hopen henters hfree =>
      visitEntries_decides htop hshort hordered hopen henters hfree hlinked
  refine ⟨fun hfails => absurd hfails (h.free e), ?_⟩
  rintro ⟨-, hlong, -⟩
  omega

/-- With as many links left as the path of a visit may still meet, entering its directory decides
about it. -/
theorem enter_decides {linksLeft : Nat} (hle : visit.linksLeft ≤ linksLeft)
    (h : files.StandsBefore root options visit names entries) :
    files.Decides root options (enter files.top options linksLeft visit entries)
      (within names) := by
  induction linksLeft generalizing visit names entries with
  | zero =>
    refine h.decides htop hshort hordered ?_
    intro linked others below hlt
    omega
  | succ linksLeft ih =>
    refine h.decides htop hshort hordered ?_
    intro linked others below hlt hlinked
    exact ih (by omega) hlinked

/-! ## Scans -/

/-- The walk of a scan decides about the whole tree. -/
theorem walk_decides {place : Place} (hplace : place.node = .directory entries)
    (hroot : files.resolve root = .ok place) :
    files.Decides root options (files.walk options (startVisit root place options) entries)
      (within []) := by
  have hleads : files.resolve (root.below []) =
      .ok ⟨place.names, .directory entries, place.linksLeft⟩ := by
    rw [Path.below_nil, hroot, ← hplace]
  have hstands : files.StandsAt root (startVisit root place options) [] :=
    ⟨rfl, rfl, fun directory => by simp [startVisit, not_isOnWay_nil]⟩
  rw [walk]
  split_ifs with hlink
  · have hpassed : files.isLink root = true ∧ options.followLinks = false := by
      simpa [startVisit] using hlink
    refine visitEntries_decides htop hshort hordered (hstands.openHere hleads)
      (.root (.inr hpassed)) (fun e => not_failsAt_nil) ?_
    intro linked others below hlt hlinked
    exact enter_decides htop hshort hordered hlt.le hlinked
  · refine enter_decides htop hshort hordered le_rfl ⟨hstands, hleads, fun e => not_failsAt_nil, ?_⟩
    rw [enters_nil_iff, or_iff_left_iff_imp]
    rintro ⟨hisLink, hfollow⟩
    exact absurd (by simp [startVisit, hisLink, hfollow]) hlink

variable (options) in
/-- A scan decides about the whole tree. -/
theorem scan_decides {start : List Bytes} (hroot : files.LeadsTo root start) :
    ((∃ report, files.scan root options = .ok report) ∧
        ∀ names e, ¬ files.FailsAt root options names e) ∨
      ∃ e names, files.scan root options = .error e ∧ files.FailsAt root options names e ∧
        ∀ earlier < names, ∀ e', ¬ files.FailsAt root options earlier e' := by
  obtain ⟨entries, linksLeft, hroot⟩ := hroot
  have hwalk : files.Decides root options (files.walk options
      (startVisit root ⟨start, .directory entries, linksLeft⟩ options) entries) (within []) :=
    walk_decides htop hshort hordered rfl hroot
  rw [scan_eq_walk hroot]
  cases hresult : files.walk options
      (startVisit root ⟨start, .directory entries, linksLeft⟩ options) entries with
  | ok found =>
    rw [hresult] at hwalk
    exact .inl ⟨⟨_, rfl⟩, fun names => hwalk names List.nil_prefix⟩
  | error e =>
    rw [hresult] at hwalk
    obtain ⟨names, -, hfails, hfirst⟩ := hwalk
    exact .inr ⟨e, names, rfl, hfails, fun earlier => hfirst earlier List.nil_prefix⟩

/-- A scan succeeds exactly if it fails nowhere. -/
theorem scan_eq_ok_iff_not_failsAt {start : List Bytes} (hroot : files.LeadsTo root start) :
    (∃ report, files.scan root options = .ok report) ↔
      ∀ names e, ¬ files.FailsAt root options names e := by
  obtain ⟨hscan, hfree⟩ | ⟨e, names, hscan, hfails, -⟩ :=
    scan_decides options htop hshort hordered hroot
  · exact ⟨fun _ => hfree, fun _ => hscan⟩
  · rw [hscan]
    refine ⟨?_, fun hfree => absurd hfails (hfree names e)⟩
    rintro ⟨report, ⟨⟩⟩

/-- A scan ends with an error exactly if it is the error of the first place at which it fails. -/
theorem scan_eq_error_iff {start : List Bytes} (hroot : files.LeadsTo root start) {e : ScanError} :
    files.scan root options = .error e ↔ ∃ names, files.FailsAt root options names e ∧
      ∀ earlier < names, ∀ e', ¬ files.FailsAt root options earlier e' := by
  obtain ⟨⟨report, hscan⟩, hfree⟩ | ⟨first, names, hscan, hfails, hfirst⟩ :=
    scan_decides options htop hshort hordered hroot
  · rw [hscan]
    refine ⟨fun h => (by cases h), ?_⟩
    rintro ⟨names, hfails, -⟩
    exact absurd hfails (hfree names e)
  · rw [hscan]
    constructor
    · rintro ⟨⟩
      exact ⟨names, hfails, hfirst⟩
    · rintro ⟨others, hothers, hfirst'⟩
      -- Both places are the first one, so they are the same.
      obtain rfl : others = names := List.le_antisymm
        (fun hlt => hfirst' names hlt first hfails) (fun hlt => hfirst others hlt e hothers)
      rw [hfails.unique hothers]

end Walk

/-- A scan ends, as it meets finitely many nodes, and fails exactly if it fails somewhere: then with
the error of the first place in the order of the names. If links are not followed, this is only
where a directory has to be entered whose path cannot be followed. An error has the path to its
place, and is a loop exactly at a link to a directory on the way there. All directories on that way
are entered, so none of them is ignored or a candidate. -/
theorem scan_fails_first {start : List Bytes} (hroot : files.LeadsTo root start)
    (htop : files.top.WellNamed) (hshort : files.top.ShortNamed) (hordered : files.top.Ordered)
    (options : ScanOptions) :
    {names | ∃ node, files.Meets root options names node}.Finite ∧
    ((∃ report, files.scan root options = .ok report) ↔
      ∀ names e, ¬ files.FailsAt root options names e) ∧
    (∀ e, files.scan root options = .error e ↔ ∃ names, files.FailsAt root options names e ∧
      ∀ earlier < names, ∀ e', ¬ files.FailsAt root options earlier e') ∧
    (options.followLinks = false → ∀ names e, files.FailsAt root options names e ↔
      ∃ entries, files.Meets root options names (.directory entries) ∧
        options.GoesOn root names ∧ maxPathBytes < (root.below names).length ∧
          e = .ofLookup .nameTooLong (root.below names)) ∧
    ∀ names e, files.FailsAt root options names e →
      e.path = some (root.below names) ∧
      (e.kind = .loop ↔ ∃ directory, files.LeadsTo (root.below names) directory ∧
        files.IsOnWay root names directory) ∧
      ∀ k < names.length, files.Enters root options (names.take k) ∧
        (k ≠ 0 → options.GoesOn root (names.take k)) := by
  refine ⟨finite_meets htop hshort hroot, scan_eq_ok_iff_not_failsAt htop hshort hordered hroot,
    fun e => scan_eq_error_iff htop hshort hordered hroot,
    fun hlinks names e => failsAt_iff_of_not_followed hlinks, fun names e hfails => ?_⟩
  refine ⟨hfails.path_eq, hfails.kind_eq_loop_iff, fun k hk => ?_⟩
  have henters := hfails.enters_take hk
  refine ⟨henters, fun hk0 => henters.goesOn ?_⟩
  rw [Ne, List.take_eq_nil_iff]
  rintro (hzero | hnil)
  · exact hk0 hzero
  · simp [hnil] at hk

/-- The scan of a directory `a` with a link to the directory above it fails at the link, also if it
looks for no candidates. -/
theorem scan_fails_at_loop :
    let top : Node := .directory [([0x61], .directory [([0x6C], .link [dot, dot])])]
    let files : FileSystem := ⟨top, []⟩
    let options : ScanOptions := { depth := 0, followLinks := true }
    let e : ScanError := .loop (Path.below [dot] [[0x61], [0x6C]])
    files.LeadsTo [dot] [] ∧ top.WellNamed ∧ top.ShortNamed ∧ top.Ordered ∧
      files.scan [dot] options = .error e ∧
      ∃ names, files.FailsAt [dot] options names e ∧
        ∀ earlier < names, ∀ e', ¬ files.FailsAt [dot] options earlier e' := by
  intro top files options e
  have hroot : files.LeadsTo [dot] [] := ⟨_, maxLinks, rfl⟩
  have htop : top.WellNamed := by
    refine .directory ?_ ?_
    all_goals simp only [List.forall_mem_singleton]
    · decide
    · refine .directory ?_ ?_
      all_goals simp only [List.forall_mem_singleton]
      · decide
      · exact .link _
  have hshort : top.ShortNamed := by
    refine .directory ?_ ?_
    all_goals simp only [List.forall_mem_singleton]
    · decide
    · refine .directory ?_ ?_
      all_goals simp only [List.forall_mem_singleton]
      · decide
      · exact .link _
  have hordered : top.Ordered := by
    refine .directory (List.pairwise_singleton _ _) ?_
    simp only [List.forall_mem_singleton]
    refine .directory (List.pairwise_singleton _ _) ?_
    simp only [List.forall_mem_singleton]
    exact .link _
  have hscan : files.scan [dot] options = .error e := rfl
  exact ⟨hroot, htop, hshort, hordered, hscan,
    ((scan_fails_first hroot htop hshort hordered options).2.2.1 e).1 hscan⟩

/-- Without links a scan can fail as well: the path of the directory that it has to enter is too
long, as that of the root is as long as can be followed. -/
theorem scan_fails_at_long_directory :
    let top : Node := .ofDirectories [[[0x61]]]
    let files : FileSystem := ⟨top, []⟩
    let root := Path.staying 2047
    let options : ScanOptions := { depth := 2 }
    files.LeadsTo root [] ∧ options.followLinks = false ∧
      ∃ e, files.scan root options = .error e := by
  intro top files root options
  have hroot : files.resolve root = .ok ⟨[], top, maxLinks⟩ := resolve_staying rfl (by decide)
  have hordered : top.Ordered := Node.ordered_ofDirectories _
  have hfirst : top.HasDirectory [[0x61]] :=
    Node.hasDirectory_ofDirectories.2 (.inr ⟨_, List.mem_singleton.2 rfl, List.prefix_rfl⟩)
  have hlength : maxPathBytes ≤ root.length := (Path.length_staying 2047).ge
  have hlong : maxPathBytes < (root.below [[0x61]]).length :=
    Path.lt_length_below hlength (List.cons_ne_nil _ _)
  refine ⟨⟨_, maxLinks, hroot⟩, rfl, ?_⟩
  cases hscan : files.scan root options with
  | ok report =>
    exact absurd hscan
      (scan_ne_ok_of_long_path hroot rfl hordered (by decide) hfirst hlong report)
  | error e => exact ⟨e, rfl⟩

end FileSystem

end EventFinder
