import EventFinder.Proofs.Batch
import EventFinder.Proofs.Pattern.TokenLists
import EventFinder.Proofs.Report
import EventFinder.Search

/-!
# What a search finds and what it tells

A run is known from its scan: where that fails, nothing but the settings is told
(`Search.run_of_scan_error`), and where it succeeds, the candidates are read and reported on
(`Search.run_of_scan_ok`). The result depends on the pattern and the settings of the search only;
the flags, paint and the format of reports change what is told of it
(`Search.flags_change_only_what_is_told`). And a run fails only where the root cannot be scanned
(`Search.run_fails_only_by_scan`).
-/

set_option autoImplicit false

namespace EventFinder

/-! ## Searches of settings -/

namespace Pattern

/-- The pattern that is read from a text is empty only if the text is. -/
theorem isEmpty_of_compile {source : Text} {pattern : Pattern} (h : compile source = .ok pattern)
    (hsource : source ≠ []) : pattern.isEmpty = false := by
  obtain ⟨-, -, -, hrender⟩ := compile_eq_ok h
  by_contra hempty
  have htokens : pattern.tokens = [] := by simpa [isEmpty] using hempty
  exact hsource (by rw [← hrender, htokens, render_nil])

end Pattern

namespace Search

variable {search other : Search} {files : FileSystem} {settings : Settings} {flags : RunFlags}
  {painted : Bool}

/-- A search is ready if the pattern of its settings compiles, and then with just what it was
given. -/
theorem ofSettings_eq_ok_iff :
    ofSettings settings flags painted = .ok search ↔
      ∃ pattern, Pattern.compile settings.images.pattern = .ok pattern ∧
        search = { settings, pattern, flags, painted } := by
  unfold ofSettings
  cases Pattern.compile settings.images.pattern with
  | ok pattern => simp [eq_comm]
  | error e => simp

/-- A search is refused if the pattern of its settings does not compile, and for that reason. -/
theorem ofSettings_eq_error_iff {failure : Failure} :
    ofSettings settings flags painted = .error failure ↔
      ∃ e, Pattern.compile settings.images.pattern = .error e ∧
        failure = .ofPatternError e settings.images.pattern := by
  unfold ofSettings
  cases Pattern.compile settings.images.pattern with
  | ok pattern => simp
  | error e => simp [eq_comm]

/-! ## One run -/

/-- The text of the report on the outcomes. -/
def outcomeText (search : Search) (batch : Batch) : Text :=
  let style := search.settings.output.format.style search.painted
  if search.isForPrograms then Text.line (batch.report style)
  else (batch.outcomes.filter search.tells).flatMap fun outcome => Text.line (outcome.report style)

/-- The outcomes that a search shows can always be written. -/
theorem outcomeReport_eq (search : Search) (batch : Batch) :
    search.outcomeReport batch = .ok (search.outcomeText batch) := by
  unfold outcomeReport outcomeText
  cases search.isForPrograms with
  | true => simp [Batch.write_eq]
  | false => rfl

/-- Where the tree cannot be scanned, the settings are told and nothing else. -/
theorem run_of_scan_error {e : ScanError}
    (h : files.scan search.settings.images.root search.scanOptions = .error e) :
    search.run files = ⟨search.told search.configuration, .error (.ofScanError e)⟩ := by
  simp only [run, h]

/-- Where the tree can be scanned, the search succeeds. -/
theorem run_of_scan_ok {found : ScanReport}
    (h : files.scan search.settings.images.root search.scanOptions = .ok found) :
    search.run files =
      ⟨search.told search.configuration ++ search.heading found ++
        { output := search.outcomeText (search.batch found) } ++
        search.told (search.batch found).summary, .ok (search.batch found)⟩ := by
  simp only [run, h, report, outcomeReport_eq]

/-! ## What a search is told apart by -/

/-- Two searches that look for the same: they go by one pattern and the same settings for images, be
their flags, their paint and their report format what they may. -/
structure LooksForTheSame (search other : Search) : Prop where
  pattern_eq : search.pattern = other.pattern
  images_eq : search.settings.images = other.settings.images

/-- Searches that look for the same find the same, or fail alike. -/
theorem LooksForTheSame.result_eq (h : LooksForTheSame search other) (files : FileSystem) :
    (search.run files).result = (other.run files).result := by
  have hoptions : search.scanOptions = other.scanOptions := by
    simp only [scanOptions, depth, Settings.ignoreList, h.pattern_eq, h.images_eq]
  have hbatch : ∀ found, search.batch found = other.batch found := by
    intro found
    simp only [batch, numberMode, h.pattern_eq, h.images_eq]
  cases hscan : files.scan search.settings.images.root search.scanOptions with
  | error e =>
    rw [run_of_scan_error hscan]
    rw [hoptions, h.images_eq] at hscan
    rw [run_of_scan_error hscan]
  | ok found =>
    rw [run_of_scan_ok hscan]
    rw [hoptions, h.images_eq] at hscan
    rw [run_of_scan_ok hscan]
    simp only [hbatch]

/-! ## The two streams -/

/-- In a format for other programs the report is all of the output, and what is told about the
search goes to the diagnostics. -/
theorem streams_of_isForPrograms (h : search.isForPrograms = true) (files : FileSystem) :
    (search.run files).streams.output =
        (match (search.run files).result with
          | .ok batch => batch.report (search.settings.output.format.style search.painted) ++ ['\n']
          | .error _ => []) ∧
      (search.run files).streams.diagnostics =
        search.configuration ++
          match files.scan search.settings.images.root search.scanOptions with
          | .ok found => search.ignoredLine found ++ (search.batch found).summary
          | .error _ => [] := by
  cases hscan : files.scan search.settings.images.root search.scanOptions with
  | error e =>
    rw [run_of_scan_error hscan]
    simp [told, h]
  | ok found =>
    rw [run_of_scan_ok hscan]
    simp [told, toldToPeople, heading, outcomeText, Text.line, h]

/-- In the format for people nothing goes to the diagnostics. -/
theorem diagnostics_of_not_isForPrograms (h : search.isForPrograms = false) (files : FileSystem) :
    (search.run files).streams.diagnostics = [] := by
  cases hscan : files.scan search.settings.images.root search.scanOptions with
  | error e =>
    rw [run_of_scan_error hscan]
    simp [told, h]
  | ok found =>
    rw [run_of_scan_ok hscan]
    simp [told, toldToPeople, heading, h]

/-- Paint changes nothing in the formats for other programs. -/
theorem style_of_isMachineReadable {format : ReportFormat} (h : format.isMachineReadable = true)
    (painted otherPainted : Bool) : format.style painted = format.style otherPainted := by
  cases format with
  | text => cases h
  | json => rfl
  | csv => rfl

/-- In a format for other programs, searches that look for the same have the same output. -/
theorem LooksForTheSame.output_eq (h : LooksForTheSame search other)
    (hformat : search.settings.output.format = other.settings.output.format)
    (hprograms : search.isForPrograms = true) (files : FileSystem) :
    (search.run files).streams.output = (other.run files).streams.output := by
  have hother : other.isForPrograms = true := by rwa [isForPrograms, ← hformat]
  rw [(streams_of_isForPrograms hprograms files).1, (streams_of_isForPrograms hother files).1,
    h.result_eq files, ← hformat, style_of_isMachineReadable hprograms search.painted other.painted]

/-- The flags of a run, paint and the format of reports change what is told and never what is found:
the result is the same batch or the same failure. In the formats for other programs the output is
the same as well, the report on the batch and a line end, or nothing where the scan failed; the
settings, the number of ignored directories and the summary are diagnostics. In the format for
people there are no diagnostics. -/
theorem flags_change_only_what_is_told (files : FileSystem) {settings : Settings}
    (hvalid : Pattern.validate settings.images.pattern = .ok ()) (flags otherFlags : RunFlags)
    (painted otherPainted : Bool) :
    ∃ search other, ofSettings settings flags painted = .ok search ∧
      ofSettings settings otherFlags otherPainted = .ok other ∧
      (search.run files).result = (other.run files).result ∧
      (settings.output.format ≠ .text →
        (search.run files).streams.output = (other.run files).streams.output ∧
        (search.run files).streams.output =
          (match (search.run files).result with
            | .ok batch => batch.report (settings.output.format.style painted) ++ ['\n']
            | .error _ => []) ∧
        (search.run files).streams.diagnostics =
          search.configuration ++
            match files.scan settings.images.root search.scanOptions with
            | .ok found => search.ignoredLine found ++ (search.batch found).summary
            | .error _ => []) ∧
      (settings.output.format = .text → (search.run files).streams.diagnostics = []) ∧
      ∀ format, ∃ reformatted,
        ofSettings { settings with output.format := format } flags painted = .ok reformatted ∧
        (reformatted.run files).result = (search.run files).result := by
  obtain ⟨pattern, hpattern⟩ := Pattern.validate_eq_ok_iff.1 hvalid
  have hready : ∀ flags painted, ofSettings settings flags painted =
      .ok { settings, pattern, flags, painted } :=
    fun flags painted => ofSettings_eq_ok_iff.2 ⟨pattern, hpattern, rfl⟩
  let search : Search := { settings, pattern, flags, painted }
  let other : Search := { settings, pattern, flags := otherFlags, painted := otherPainted }
  have hsame : LooksForTheSame search other := ⟨rfl, rfl⟩
  refine ⟨search, other, hready flags painted, hready otherFlags otherPainted,
    hsame.result_eq files, fun hformat => ?_, fun hformat => ?_, fun format => ?_⟩
  · have hprograms : search.isForPrograms = true := by
      show settings.output.format.isMachineReadable = true
      cases hcase : settings.output.format with
      | text => exact absurd hcase hformat
      | json => rfl
      | csv => rfl
    exact ⟨hsame.output_eq rfl hprograms files, streams_of_isForPrograms hprograms files⟩
  · have hpeople : search.isForPrograms = false := by
      show settings.output.format.isMachineReadable = false
      rw [hformat]
      rfl
    exact diagnostics_of_not_isForPrograms hpeople files
  · let reformatted : Search :=
      { settings := { settings with output.format := format }, pattern, flags, painted }
    have hreformatted : LooksForTheSame reformatted search := ⟨rfl, rfl⟩
    exact ⟨reformatted, ofSettings_eq_ok_iff.2 ⟨pattern, hpattern, rfl⟩,
      hreformatted.result_eq files⟩

/-- A table of one directory, told with no flag and without paint, and with all flags and painted.
-/
theorem flags_change_only_what_is_told_of_table :
    let settings : Settings :=
      { images := { pattern := "%y/%V".toList }, output := { format := .csv } }
    let pattern : Pattern := ⟨"%y/%V".toList, [.field .year, .literal ['/'], .field .venue]⟩
    let files : FileSystem := ⟨Node.empty.addDirectory [[0x39], [0x48, 0x2C]], []⟩
    let quiet : Search := { settings, pattern }
    let loud : Search := { settings, pattern, flags := ⟨true, true, true⟩, painted := true }
    Pattern.validate settings.images.pattern = .ok () ∧
      (quiet.run files).streams.output = (loud.run files).streams.output ∧
      (quiet.run files).streams.output =
        Csv.row columnNames ++ "\"9/H,\",9,0,0,,,\"H,\",,true,\n\n".toList ∧
      (quiet.run files).streams.diagnostics ≠ (loud.run files).streams.diagnostics := by
  intro settings pattern files quiet loud
  have hvalid : Pattern.validate settings.images.pattern = .ok () := by decide +kernel
  have hquiet : ofSettings settings {} false = .ok quiet :=
    ofSettings_eq_ok_iff.2 ⟨pattern, by decide +kernel, rfl⟩
  have hloud : ofSettings settings ⟨true, true, true⟩ true = .ok loud :=
    ofSettings_eq_ok_iff.2 ⟨pattern, by decide +kernel, rfl⟩
  obtain ⟨search, other, hsearch, hother, -, hprograms, -⟩ :=
    flags_change_only_what_is_told files hvalid {} ⟨true, true, true⟩ false true
  rw [hquiet] at hsearch
  rw [hloud] at hother
  cases hsearch
  cases hother
  exact ⟨hvalid, (hprograms (by decide)).1, by decide +kernel, by decide +kernel⟩

/-! ## How a search ends -/

/-- A pattern that does not compile is a wrong call of the program, whatever is wrong with it. -/
theorem exitCode_ofPatternError (e : PatternError) (source : Text) :
    (Failure.ofPatternError e source).exitCode = FailureCategory.misuse.exitCode :=
  rfl

/-- A tree that cannot be scanned is a failure of the file system, whatever kind of error it is. -/
theorem exitCode_ofScanError (e : ScanError) :
    (Failure.ofScanError e).exitCode = FailureCategory.filesystem.exitCode := by
  have hcategory : (Failure.ofScanError e).category = .filesystem := by
    simp only [Failure.ofScanError]
    cases e.kind <;> rfl
  rw [Failure.exitCode, hcategory]

/-- A search fails exactly where its scan does, and tells of the same error. -/
theorem result_eq_error_iff {failure : Failure} :
    (search.run files).result = .error failure ↔
      ∃ e, files.scan search.settings.images.root search.scanOptions = .error e ∧
        failure = .ofScanError e := by
  cases hscan : files.scan search.settings.images.root search.scanOptions with
  | error e => simp [run_of_scan_error hscan, eq_comm]
  | ok found => simp [run_of_scan_ok hscan]

/-- The batch of a search whose pattern is not the empty one has an outcome for each candidate. -/
theorem paths_of_batch (h : search.pattern.isEmpty = false) (found : ScanReport) :
    (search.batch found).outcomes.map Outcome.path = found.candidates := by
  have hpath : Outcome.path ∘ search.pattern.readCandidate search.numberMode = id := rfl
  rw [batch, h, Pattern.readAll, Batch.ofOutcomes_eq]
  simp [hpath]

/-- A search is refused exactly where its pattern is, as a wrong call of the program and whatever
there is to search. Otherwise its run fails exactly where the root does not exist or the scan at the
depth of the pattern fails, as a failure of the file system, and has told its settings only. In all
other cases the run succeeds, with an outcome for each candidate unless the pattern is empty, for
every report can be written: no text makes the rows of a table unequal or its bytes ill-formed. -/
theorem run_fails_only_by_scan (settings : Settings) (flags : RunFlags) (painted : Bool) :
    let options : ScanOptions :=
      { depth := levels settings.images.pattern settings.images.includeParent
        ignore := settings.ignoreList
        includeParent := settings.images.includeParent }
    ((∃ failure, ofSettings settings flags painted = .error failure) ↔
      ∃ e, Pattern.validate settings.images.pattern = .error e) ∧
    (∀ failure, ofSettings settings flags painted = .error failure →
      failure.exitCode = FailureCategory.misuse.exitCode) ∧
    (∀ search, ofSettings settings flags painted = .ok search → ∀ files : FileSystem,
      ((∃ failure, (search.run files).result = .error failure) ↔
        (∃ e, files.resolve settings.images.root = .error e) ∨
          ∃ e, files.scan settings.images.root options = .error e) ∧
      (∀ failure, (search.run files).result = .error failure →
        failure.exitCode = FailureCategory.filesystem.exitCode ∧
          (search.run files).streams = search.told search.configuration) ∧
      ∀ found, files.scan settings.images.root options = .ok found →
        ∃ batch, (search.run files).result = .ok batch ∧
          (settings.images.pattern ≠ [] → batch.outcomes.map Outcome.path = found.candidates)) ∧
    (∀ (style : ReportStyle) (batch : Batch), batch.write style = .ok (batch.report style)) ∧
    (∀ (style : ReportStyle) (outcome : Outcome),
      outcome.write style = .ok (outcome.report style)) ∧
    ∀ outcomes : List Outcome, Csv.writtenText? (columnNames :: outcomes.map Outcome.row) =
      some (.ok (outcomeTable outcomes)) := by
  intro options
  refine ⟨?_, fun failure hfailure => ?_, fun search hsearch files => ?_, Batch.write_eq,
    Outcome.write_eq, fun outcomes => ?_⟩
  · simp only [ofSettings_eq_error_iff, Pattern.validate_eq_error_iff]
    exact ⟨fun ⟨_, e, he, _⟩ => ⟨e, he⟩, fun ⟨e, he⟩ => ⟨_, e, he, rfl⟩⟩
  · obtain ⟨e, -, rfl⟩ := ofSettings_eq_error_iff.1 hfailure
    exact exitCode_ofPatternError e settings.images.pattern
  · obtain ⟨pattern, hpattern, rfl⟩ := ofSettings_eq_ok_iff.1 hsearch
    let search : Search := { settings, pattern, flags, painted }
    have hoptions : search.scanOptions = options := by
      simp only [search, options, scanOptions, depth, (Pattern.compile_eq_ok hpattern).1]
    rw [← hoptions]
    refine ⟨?_, fun failure hfailure => ?_, fun found hfound => ?_⟩
    · simp only [result_eq_error_iff]
      constructor
      · rintro ⟨_, e, hscan, -⟩
        exact .inr ⟨e, hscan⟩
      · rintro (⟨e, hroot⟩ | ⟨e, hscan⟩)
        · -- The scan names the root as written, whatever kept it from being found.
          exact ⟨_, .notFound settings.images.root, by simp only [FileSystem.scan, hroot], rfl⟩
        · exact ⟨_, e, hscan, rfl⟩
    · obtain ⟨e, hscan, rfl⟩ := result_eq_error_iff.1 hfailure
      exact ⟨exitCode_ofScanError e, congrArg SearchResult.streams (run_of_scan_error hscan)⟩
    · refine ⟨search.batch found, congrArg SearchResult.result (run_of_scan_ok hfound), ?_⟩
      exact fun hsource => paths_of_batch (Pattern.isEmpty_of_compile hpattern hsource) found
  · rw [Csv.writtenText?_eq]
    exact congrArg some (writeTable_eq outcomes)

/-- A pattern that is none, a root that does not exist, and a table of two directories, only one of
which fits. -/
theorem run_fails_only_by_scan_of_table :
    let settings (root : Path) (source : Text) : Settings :=
      { images := { root, pattern := source }, output := { format := .csv } }
    let files : FileSystem :=
      ⟨(Node.empty.addDirectory [[0x39, 0x21]]).addDirectory [[0x48, 0x2C]], []⟩
    (∃ failure, ofSettings (settings [dot] "%y%V".toList) {} false = .error failure ∧
      failure.exitCode = 2) ∧
    (∃ search failure, ofSettings (settings [0x7A] "%y!".toList) {} false = .ok search ∧
      (search.run files).result = .error failure ∧ failure.exitCode = 4) ∧
    ∃ search batch, ofSettings (settings [dot] "%y!".toList) {} false = .ok search ∧
      (search.run files).result = .ok batch ∧
      batch.outcomes.map Outcome.path = [[0x39, 0x21], [0x48, 0x2C]] := by
  intro settings files
  let pattern : Pattern := ⟨"%y!".toList, [.field .year, .literal ['!']]⟩
  have hcompile : Pattern.compile "%y!".toList = .ok pattern := by decide +kernel
  have hready : ∀ root, ofSettings (settings root "%y!".toList) {} false =
      .ok { settings := settings root "%y!".toList, pattern } :=
    fun root => ofSettings_eq_ok_iff.2 ⟨pattern, hcompile, rfl⟩
  refine ⟨?_, ?_, ?_⟩
  · obtain ⟨hrefused, hcode, -⟩ := run_fails_only_by_scan (settings [dot] "%y%V".toList) {} false
    have hvalidate : Pattern.validate "%y%V".toList =
        .error (.adjacentPlaceholders .year "%V".toList 2) := by decide +kernel
    obtain ⟨failure, hfailure⟩ := hrefused.2 ⟨_, hvalidate⟩
    exact ⟨failure, hfailure, hcode failure hfailure⟩
  · obtain ⟨-, -, hruns, -⟩ := run_fails_only_by_scan (settings [0x7A] "%y!".toList) {} false
    obtain ⟨hfails, hcode, -⟩ := hruns _ (hready [0x7A]) files
    obtain ⟨failure, hfailure⟩ := hfails.2 (.inl ⟨.notFound, rfl⟩)
    exact ⟨_, failure, hready [0x7A], hfailure, (hcode failure hfailure).1⟩
  · obtain ⟨-, -, hruns, -⟩ := run_fails_only_by_scan (settings [dot] "%y!".toList) {} false
    obtain ⟨-, -, hsucceeds⟩ := hruns _ (hready [dot]) files
    have hscan : files.scan [dot] { depth := 1, ignore := .ofEntries [] } =
        .ok ⟨[[0x39, 0x21], [0x48, 0x2C]], 0, 1⟩ := by decide +kernel
    obtain ⟨batch, hbatch, hpaths⟩ := hsucceeds _ hscan
    exact ⟨_, batch, hready [dot], hbatch, hpaths (by decide)⟩

end Search

end EventFinder
