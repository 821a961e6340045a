import EventFinder.Proofs.Location.Accounting
import EventFinder.Proofs.Tree.Candidates

/-!
# Levels

Directory levels and pattern levels line up. The slashes of a pattern are those of its literals, for
no placeholder is written with one. Their number decides the depth of a scan, and at this depth
every candidate has one name more (`FileSystem.names_of_scan`), so that its location has as many
slashes, which stand between the names (`Path.splitOn_location`). A location that holds all literals
of the pattern has no slash left for its fields: no field reaches over a directory
(`FileSystem.capture_within_levels`).
-/

set_option autoImplicit false

namespace EventFinder

/-! ## Slashes in captures -/

/-- Where the literals use up all slashes, the captures hold none. -/
theorem WritesOut.slash_notMem {tokens : List Token} {location : Text} {captures : List Capture}
    (h : WritesOut tokens location captures)
    (hcount : location.count '/' = (literalText tokens).count '/') :
    ∀ capture ∈ captures, '/' ∉ capture.2 := by
  obtain ⟨filled, rfl, rfl, rfl⟩ := h
  rw [count_filledText] at hcount
  have hnone : '/' ∉ (filled.filterMap FilledToken.capture?).flatMap Prod.snd := by
    rw [← List.count_eq_zero]
    omega
  intro capture hmem hslash
  exact hnone (List.mem_flatMap.2 ⟨capture, hmem, hslash⟩)

/-! ## Slashes in locations -/

/-- From nowhere, names lead along a path whose location has the texts of the names between its
slashes. -/
theorem Path.splitOn_location {names : List Bytes} (hne : names ≠ [])
    (hnames : ∀ name ∈ names, IsName name) :
    (Path.below [] names).location.splitOn '/' = names.map Bytes.toText := by
  rw [location, names_nil_below hne hnames]
  refine List.splitOn_intercalate '/' ?_ (by simpa using hne)
  simp only [List.forall_mem_map]
  exact fun name hname => Bytes.slash_notMem_toText (hnames name hname).slash_notMem

namespace FileSystem

variable {files : FileSystem} {root : Path} {place : Place} {source : Text} {ignore : IgnoreList}
  {includeParent followLinks : Bool} {report : ScanReport}

/-- The candidates of a scan at the level of a pattern have one name more than the pattern has
slashes. If the name of the root is put in front, it is one of them. -/
theorem names_of_scan (htop : files.top.WellNamed) (hroot : files.resolve root = .ok place)
    (hsource : source ≠ []) (hname : includeParent = true → directoryName root place ≠ [])
    (hreport : files.scan root
      { depth := levels source includeParent, ignore, includeParent, followLinks } = .ok report) :
    ∀ candidate ∈ report.candidates, ∃ names : List Bytes, (∀ name ∈ names, IsName name) ∧
      names.length = source.count '/' + 1 ∧ candidate = Path.below [] names := by
  intro candidate hmem
  obtain ⟨names, hnames, hlength, rfl⟩ := candidate_of_scan htop hroot hreport candidate hmem
  cases includeParent with
  | false => exact ⟨names, hnames, by simpa [levels, hsource] using hlength, rfl⟩
  | true =>
    have hparent : IsName (directoryName root place) :=
      isName_directoryName htop hroot (hname rfl)
    refine ⟨directoryName root place :: names, List.forall_mem_cons.2 ⟨hparent, hnames⟩, ?_, ?_⟩
    · simpa [levels, hsource] using hlength
    · simp [candidateStart, Path.join]

/-- What the scan at the level of a pattern finds fits the levels of the pattern: a candidate has as
many slashes in its location as the pattern has in its text, all of them in its literals, and they
stand between the names of the candidate. So a field that the matcher captures holds none, as long
as the location does not stop before the last literal. -/
theorem capture_within_levels {pattern : Pattern} (hcompile : Pattern.compile source = .ok pattern)
    (hsource : source ≠ []) (htop : files.top.WellNamed) (hroot : files.resolve root = .ok place)
    (hname : includeParent = true → directoryName root place ≠ [])
    (hreport : files.scan root
      { depth := levels source includeParent, ignore, includeParent, followLinks } = .ok report) :
    source.count '/' = (literalText pattern.tokens).count '/' ∧
      ∀ candidate ∈ report.candidates,
        candidate.location.count '/' = source.count '/' ∧
        candidate.location.splitOn '/' = candidate.names.map Bytes.toText ∧
        ∀ captures, capture pattern.tokens candidate.location = .ok captures →
          (WritesOut pattern.tokens candidate.location captures ∨
            StopsInside pattern.tokens candidate.location captures) ∧
          (WritesOut pattern.tokens candidate.location captures →
            ∀ capture ∈ captures, '/' ∉ capture.2) := by
  obtain ⟨-, -, -, hrender⟩ := Pattern.compile_eq_ok hcompile
  have hliterals : source.count '/' = (literalText pattern.tokens).count '/' := by
    rw [← hrender, count_slash_render]
  refine ⟨hliterals, fun candidate hmem => ?_⟩
  obtain ⟨names, hnames, hlength, rfl⟩ := names_of_scan htop hroot hsource hname hreport _ hmem
  have hne : names ≠ [] := List.ne_nil_of_length_eq_add_one hlength
  have hpieces := Path.splitOn_location hne hnames
  have hcount : (Path.below [] names).location.count '/' = source.count '/' := by
    have hlengths := congrArg List.length hpieces
    rw [length_splitOn, List.length_map, hlength] at hlengths
    exact Nat.succ_injective hlengths
  refine ⟨hcount, by rw [hpieces, Path.names_nil_below hne hnames], fun captures hcapture => ?_⟩
  exact ⟨accounts_of_capture hcapture, fun hwrites => hwrites.slash_notMem (hcount.trans hliterals)⟩

/-- The directory in a directory that is scanned with its name in front of the candidates. -/
theorem capture_of_candidate_with_parent :
    let pattern : Pattern := ⟨"%y/%V".toList, [.field .year, .literal ['/'], .field .venue]⟩
    let files : FileSystem := ⟨.ofDirectories [[[0x61], [0x62]]], []⟩
    let place : Place := ⟨[[0x61]], .directory [([0x62], .directory [])], maxLinks⟩
    let candidate : Path := [0x61, slash, 0x62]
    let captures : List Capture := [(.year, ['a']), (.venue, ['b'])]
    Pattern.compile pattern.source = .ok pattern ∧ pattern.source ≠ [] ∧ files.top.WellNamed ∧
      files.resolve [0x61] = .ok place ∧ directoryName [0x61] place ≠ [] ∧
      files.scan [0x61] { depth := levels pattern.source true, includeParent := true } =
        .ok ⟨[candidate], 0, 1⟩ ∧
      candidate.location.count '/' = pattern.source.count '/' ∧
      capture pattern.tokens candidate.location = .ok captures ∧
      ∀ capture ∈ captures, '/' ∉ capture.2 := by
  intro pattern files place candidate captures
  have hcompile : Pattern.compile pattern.source = .ok pattern := by decide +kernel
  have hsource : pattern.source ≠ [] := by decide
  have htop : files.top.WellNamed := Node.wellNamed_ofDirectories (by decide)
  have hroot : files.resolve [0x61] = .ok place := rfl
  have hname : directoryName [0x61] place ≠ [] := by decide
  have hreport : files.scan [0x61]
      { depth := levels pattern.source true, ignore := .none, includeParent := true } =
        .ok ⟨[candidate], 0, 1⟩ := by decide +kernel
  have hcapture : capture pattern.tokens candidate.location = .ok captures := by decide +kernel
  have hwrites : WritesOut pattern.tokens candidate.location captures :=
    ⟨[.field .year ['a'], .literal ['/'], .field .venue ['b']], rfl, rfl, by decide +kernel⟩
  obtain ⟨-, hfits⟩ := capture_within_levels hcompile hsource htop hroot (fun _ => hname) hreport
  obtain ⟨hcount, -, hcaptures⟩ := hfits candidate (List.mem_singleton.2 rfl)
  exact ⟨hcompile, hsource, htop, hroot, hname, hreport, hcount, hcapture,
    (hcaptures captures hcapture).2 hwrites⟩

end FileSystem

end EventFinder
