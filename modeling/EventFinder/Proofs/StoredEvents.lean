import Mathlib.Data.List.Dedup
import EventFinder.Proofs.Batch
import EventFinder.Proofs.Location.RoundTrip
import EventFinder.Proofs.Tree.StoredLocations

/-!
# Stored events

Events whose locations were made as directories are found and read again
(`FileSystem.read_stored_events`): the number of slashes in the pattern is the level at which the
locations lie, the scan finds the locations at this level, and each of them is read as the record of
its event. Only paths that are too long to be followed can prevent it
(`FileSystem.no_stored_events_below_long_root`).
-/

set_option autoImplicit false

namespace EventFinder

namespace Event

variable {event : Event} {pattern : Pattern}

/-- An event that can be stored under its location by the pattern and be found again. -/
structure Storable (event : Event) (pattern : Pattern) : Prop where
  writable : event.Writable
  keeps : KeepsBoundaries (pattern.tokens.map event.fillToken) []
  slash_notMem : ∀ placeholder ∈ pattern.placeholders, '/' ∉ event.fieldText placeholder
  isPath : IsPathOfNames (event.location pattern)

/-- A location has as many slashes as its pattern. -/
theorem count_slash_location {source : Text} (h : Pattern.compile source = .ok pattern)
    (hslash : ∀ placeholder ∈ pattern.placeholders, '/' ∉ event.fieldText placeholder) :
    (event.location pattern).count '/' = source.count '/' := by
  obtain ⟨-, -, -, rfl⟩ := Pattern.compile_eq_ok h
  have hcaptures : ((event.captures pattern).flatMap Prod.snd).count '/' = 0 := by
    rw [List.count_eq_zero, captures, List.flatMap_map]
    simpa using hslash
  rw [← filledText_fillToken, count_filledText, map_token_fillToken, filterMap_capture?_fillToken,
    hcaptures, count_slash_render, Nat.add_zero]

/-- The locations of a pattern that is not empty lie at its number of levels. -/
theorem length_locationNames_location {source : Text} (h : Pattern.compile source = .ok pattern)
    (hne : source ≠ [])
    (hslash : ∀ placeholder ∈ pattern.placeholders, '/' ∉ event.fieldText placeholder) :
    (locationNames (event.location pattern)).length = levels source false := by
  simp [length_locationNames, count_slash_location h hslash, levels, hne]

/-- The location of a storable event is read as its record. -/
theorem Storable.read_eq_ok {source : Text} (hstorable : event.Storable pattern)
    (h : Pattern.compile source = .ok pattern) :
    pattern.read .lenient (event.location pattern) = .ok (event.expected pattern) :=
  event.read_of_keepsBoundaries h hstorable.writable nofun hstorable.keeps

end Event

/-! ## Reading what was found -/

/-- The batch of locations that are all read as consistent records. -/
theorem Pattern.readAll_toBytes {pattern : Pattern} {mode : NumberMode} {locations : List Text}
    (hpaths : ∀ location ∈ locations, IsPathOfNames location)
    (hread : ∀ location ∈ locations, ∃ record, pattern.read mode location = .ok record ∧
      record.consistent = true) :
    pattern.readAll mode (locations.map Text.toBytes) =
      ⟨locations.length, locations.length, 0, 0,
        locations.map fun location =>
          ⟨location.toBytes, location, pattern.read mode location⟩⟩ := by
  have houtcomes : (locations.map Text.toBytes).map (pattern.readCandidate mode) =
      locations.map fun location => ⟨location.toBytes, location, pattern.read mode location⟩ := by
    rw [List.map_map]
    apply List.map_congr_left
    intro location h
    simp only [Function.comp_apply, Pattern.readCandidate, (hpaths location h).location_toBytes]
  have hsuccess : ∀ outcome ∈ locations.map fun location =>
      (⟨location.toBytes, location, pattern.read mode location⟩ : Outcome),
      outcome.isSuccess = true ∧ outcome.isInconsistent = false := by
    intro outcome hmem
    obtain ⟨location, h, rfl⟩ := List.mem_map.1 hmem
    obtain ⟨record, hrecord, hconsistent⟩ := hread location h
    simp [Outcome.isSuccess, Outcome.isInconsistent, Outcome.record?, hrecord, hconsistent,
      Except.toOption]
  rw [Pattern.readAll, houtcomes, Batch.ofOutcomes_of_consistent hsuccess, List.length_map]

/-- The batch of locations under which events were stored. -/
theorem Pattern.readAll_stored {source : Text} {pattern : Pattern}
    (h : Pattern.compile source = .ok pattern) {events : List Event}
    (hstorable : ∀ event ∈ events, event.Storable pattern) {locations : List Text}
    (hlocations : ∀ location ∈ locations, ∃ event ∈ events, event.location pattern = location) :
    pattern.readAll .lenient (locations.map Text.toBytes) =
      ⟨locations.length, locations.length, 0, 0,
        locations.map fun location =>
          ⟨location.toBytes, location, pattern.read .lenient location⟩⟩ := by
  apply Pattern.readAll_toBytes
  · intro location hmem
    obtain ⟨event, hevent, rfl⟩ := hlocations location hmem
    exact (hstorable event hevent).isPath
  · intro location hmem
    obtain ⟨event, hevent, rfl⟩ := hlocations location hmem
    exact ⟨event.expected pattern, (hstorable event hevent).read_eq_ok h,
      event.consistent_expected pattern⟩

/-- A list without repetitions is as long as any list of the same elements without theirs. -/
theorem length_eq_length_dedup {found locations : List Text} (h : found.Nodup)
    (hmem : ∀ location, location ∈ found ↔ location ∈ locations) :
    found.length = locations.dedup.length := by
  have hperm := (List.perm_ext_iff_of_nodup h locations.nodup_dedup).2 fun location =>
    (hmem location).trans List.mem_dedup.symm
  exact hperm.length_eq

namespace FileSystem

/-- Events whose locations are the directories of a tree are found by a scan at the number of levels
of their pattern, and read again. The scan succeeds exactly if the paths on the way to the locations
can be followed. What is read then is one outcome for each location, in the order of the names of
the paths, with the record that is expected of every event there. -/
theorem read_stored_events {source : Text} {pattern : Pattern}
    (hcompile : Pattern.compile source = .ok pattern) (hne : source ≠ []) {events : List Event}
    (hstorable : ∀ event ∈ events, event.Storable pattern) {files : FileSystem} {root : Path}
    {place : Place} (hroot : files.resolve root = .ok place) (hordered : place.node.Ordered)
    (hconsists : place.node.ConsistsOf (events.map fun event => event.location pattern)) :
    ((∃ report, files.scan root { depth := levels source false } = .ok report) ↔
      ∀ event ∈ events, ∀ k < levels source false,
        (root.below ((locationNames (event.location pattern)).take k)).length ≤ maxPathBytes) ∧
    ∀ report, files.scan root { depth := levels source false } = .ok report →
      let batch := pattern.readAll .lenient report.candidates
      let count := (events.map fun event => event.location pattern).dedup.length
      (batch.outcomes.map fun outcome => outcome.path.names).Pairwise (· < ·) ∧
      (∀ location, location ∈ batch.outcomes.map Outcome.location ↔
        ∃ event ∈ events, event.location pattern = location) ∧
      (∀ outcome ∈ batch.outcomes, outcome.path = outcome.location.toBytes ∧
        ∀ event ∈ events, event.location pattern = outcome.location →
          outcome.result = .ok (event.expected pattern)) ∧
      batch.total = count ∧ batch.successful = count ∧ batch.inconsistent = 0 ∧
      batch.failed = 0 := by
  have hdepth : levels source false ≠ 0 := by simp [levels, hne]
  have hlengths : ∀ location ∈ events.map fun event => event.location pattern,
      (locationNames location).length = levels source false := by
    simp only [List.forall_mem_map]
    intro event hevent
    exact Event.length_locationNames_location hcompile hne (hstorable event hevent).slash_notMem
  have hpaths : ∀ location ∈ events.map fun event => event.location pattern,
      IsPathOfNames location := by
    simp only [List.forall_mem_map]
    intro event hevent
    exact (hstorable event hevent).isPath
  obtain ⟨found, hsorted, hmem, hscan⟩ :=
    scan_of_consistsOf hroot hordered hconsists hlengths hdepth hpaths
  have hbatch := Pattern.readAll_stored hcompile hstorable fun location hfound =>
    List.mem_map.1 ((hmem location).1 hfound)
  have hnames : (found.map locationNames).Nodup := by
    apply hsorted.imp
    rintro names _ hlt rfl
    exact List.lt_irrefl names hlt
  have hcount := length_eq_length_dedup (hnames.of_map locationNames) hmem
  refine ⟨?_, fun report hreport => ?_⟩
  · simp only [hscan, exists_and_left, exists_eq, and_true, List.forall_mem_map]
  · obtain ⟨-, rfl⟩ := (hscan report).1 hreport
    simp only [hbatch, List.map_map, List.mem_map]
    refine ⟨?_, ?_, ?_, hcount, hcount, trivial, trivial⟩
    · have hpath : found.map (fun location => Path.names location.toBytes) =
          found.map locationNames := by
        apply List.map_congr_left
        intro location hfound
        exact (hpaths location ((hmem location).1 hfound)).names_toBytes
      show (found.map fun location => Path.names location.toBytes).Pairwise (· < ·)
      rw [hpath]
      exact hsorted
    · intro location
      simp [hmem]
    · rintro _ ⟨location, -, rfl⟩
      refine ⟨rfl, ?_⟩
      rintro event hevent rfl
      exact (hstorable event hevent).read_eq_ok hcompile

/-- Two events that were stored in the current directory are found and read. -/
theorem read_two_stored_events :
    let pattern : Pattern := ⟨"%y/%V".toList, [.field .year, .literal ['/'], .field .venue]⟩
    let events : List Event :=
      [⟨2024, 1, 24, [], "Hall".toList, []⟩, ⟨2023, 12, 31, [], "Bar".toList, []⟩]
    let locations := events.map fun event => event.location pattern
    let files : FileSystem := ⟨.ofDirectories (locations.map locationNames), []⟩
    Pattern.compile pattern.source = .ok pattern ∧ (∀ event ∈ events, event.Storable pattern) ∧
      files.resolve [dot] = .ok ⟨[], files.top, maxLinks⟩ ∧ files.top.Ordered ∧
      files.top.ConsistsOf locations ∧
      ∃ report, files.scan [dot] { depth := levels pattern.source false } = .ok report ∧
        (pattern.readAll .lenient report.candidates).successful = 2 := by
  intro pattern events locations files
  have hcompile : Pattern.compile pattern.source = .ok pattern := by decide +kernel
  have hstorable : ∀ event ∈ events, event.Storable pattern := by
    have hlistable : Listable [] := ⟨by decide, by decide, by decide⟩
    simp only [events, List.forall_mem_cons, List.not_mem_nil, false_imp_iff, implies_true,
      and_true]
    exact ⟨⟨⟨by decide, by decide, by decide, hlistable, hlistable, by decide +kernel⟩,
        by decide +kernel, by decide +kernel, by decide +kernel⟩,
      ⟨⟨by decide, by decide, by decide, hlistable, hlistable, by decide +kernel⟩,
        by decide +kernel, by decide +kernel, by decide +kernel⟩⟩
  have hroot : files.resolve [dot] = .ok ⟨[], files.top, maxLinks⟩ := rfl
  have hordered : files.top.Ordered := Node.ordered_ofDirectories _
  have hconsists : files.top.ConsistsOf locations := Node.consistsOf_ofDirectories locations
  obtain ⟨hscan, hread⟩ :=
    read_stored_events hcompile (by decide +kernel) hstorable hroot hordered hconsists
  obtain ⟨report, hreport⟩ := hscan.2 (by decide +kernel)
  refine ⟨hcompile, hstorable, hroot, hordered, hconsists, report, hreport, ?_⟩
  obtain ⟨-, -, -, -, hsuccessful, -, -⟩ := hread report hreport
  rw [hsuccessful]
  decide +kernel

/-- An event whose location has two levels cannot be found below a root whose path is as long as
can be followed, although the tree consists of its location. -/
theorem no_stored_events_below_long_root :
    let pattern : Pattern := ⟨"%V/%V".toList, [.field .venue, .literal ['/'], .field .venue]⟩
    let event : Event := ⟨2024, 1, 24, [], "a".toList, []⟩
    let files : FileSystem := ⟨.ofDirectories [locationNames (event.location pattern)], []⟩
    let root := Path.staying 2047
    Pattern.compile pattern.source = .ok pattern ∧ event.Storable pattern ∧
      files.resolve root = .ok ⟨[], files.top, maxLinks⟩ ∧ files.top.Ordered ∧
      files.top.ConsistsOf [event.location pattern] ∧
      ∀ report, files.scan root { depth := levels pattern.source false } ≠ .ok report := by
  intro pattern event files root
  have hlistable : Listable [] := ⟨by decide, by decide, by decide⟩
  have hstorable : event.Storable pattern :=
    ⟨⟨by decide, by decide, by decide, hlistable, hlistable, by decide +kernel⟩,
      by decide +kernel, by decide +kernel, by decide +kernel⟩
  have hroot : files.resolve root = .ok ⟨[], files.top, maxLinks⟩ :=
    resolve_staying rfl (by decide)
  have hordered : files.top.Ordered := Node.ordered_ofDirectories _
  have hconsists : files.top.ConsistsOf [event.location pattern] :=
    Node.consistsOf_ofDirectories [event.location pattern]
  have hfirst : files.top.HasDirectory [[0x61]] :=
    (hconsists [[0x61]]).2 (.inr ⟨_, List.mem_singleton.2 rfl, by decide +kernel⟩)
  have hlevels : [[(0x61 : UInt8)]].length < levels pattern.source false := by decide +kernel
  have hlength : maxPathBytes ≤ root.length := (Path.length_staying 2047).ge
  exact ⟨by decide +kernel, hstorable, hroot, hordered, hconsists,
    scan_ne_ok_of_long_path hroot hconsists.isDirectory hordered hlevels hfirst
      (Path.lt_length_below hlength (List.cons_ne_nil _ _))⟩

end FileSystem

end EventFinder
