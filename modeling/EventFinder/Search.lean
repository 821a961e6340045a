import EventFinder.Failure
import EventFinder.Report
import EventFinder.Settings.Basic
import EventFinder.Tree.Scan

/-!
# Searches

A search looks for the directories at the depth of a pattern, reads every one of them by the
pattern and reports the outcomes. `Search.ofSettings` refuses a text that is no pattern before
anything is looked at. After that the scan of the tree can fail, and so could the writing of a
report; locations that do not fit the pattern are outcomes like any other.

What a search tells goes to two streams. In the formats for people everything is output. In the
formats for other programs the output is the report and nothing else, and what is said about the
search goes to the diagnostics.
-/

set_option autoImplicit false

namespace EventFinder

/-- What events are searched for in. -/
inductive Source where
  | images
  | tickets
  | info
  deriving DecidableEq, Repr

/-- The name of a source. -/
def Source.name : Source → Text
  | images => "images".toList
  | tickets => "tickets".toList
  | info => "info".toList

/-- The flags of a run. They change what is told, not what is found. -/
structure RunFlags where
  /-- Whether nothing may be changed. -/
  dryRun : Bool := false
  /-- Whether records are told. -/
  verbose : Bool := false
  /-- Whether locations that do not fit are told, in place of records. -/
  debug : Bool := false
  deriving DecidableEq, Repr

/-- A line with the name of something and its value. -/
def labelled (name : String) (value : Text) : Text :=
  Text.line (name.toList ++ ": ".toList ++ value)

/-- The source and the flags of a run, one on each line. -/
def RunFlags.configuration (source : Source) (flags : RunFlags) : Text :=
  labelled "Source" source.name ++
  labelled "Dryrun" (Text.ofBool flags.dryRun) ++
  labelled "Verbose" (Text.ofBool flags.verbose) ++
  labelled "Debug" (Text.ofBool flags.debug)

/-- Text on the two streams of a program. -/
structure Streams where
  output : Text := []
  diagnostics : Text := []
  deriving DecidableEq, Repr

/-- The text on two pairs of streams, one after the other. -/
def Streams.append (a b : Streams) : Streams :=
  ⟨a.output ++ b.output, a.diagnostics ++ b.diagnostics⟩

/-- Streams are written one after the other. -/
instance : Append Streams := ⟨Streams.append⟩

/-- What goes to the output of both streams. -/
@[simp] theorem Streams.output_append (a b : Streams) : (a ++ b).output = a.output ++ b.output :=
  rfl

/-- What goes to the diagnostics of both streams. -/
@[simp] theorem Streams.diagnostics_append (a b : Streams) :
    (a ++ b).diagnostics = a.diagnostics ++ b.diagnostics :=
  rfl

/-- A search that is ready to run. -/
structure Search where
  settings : Settings
  /-- The pattern of the settings. -/
  pattern : Pattern
  flags : RunFlags := {}
  /-- Whether reports are painted. -/
  painted : Bool := false

/-- What a search has found, or why it failed, with what it told. -/
structure SearchResult where
  streams : Streams
  result : Except Failure Batch

namespace Search

/-- The search of the settings, unless their pattern is none. -/
def ofSettings (settings : Settings) (flags : RunFlags) (painted : Bool) :
    Except Failure Search :=
  match Pattern.compile settings.images.pattern with
  | .ok pattern => .ok { settings, pattern, flags, painted }
  | .error e => .error (.ofPatternError e settings.images.pattern)

/-- The number of levels below the root on which the candidates are. -/
def depth (search : Search) : Nat :=
  levels search.pattern.source search.settings.images.includeParent

/-- The scan of the search. -/
def scanOptions (search : Search) : ScanOptions where
  depth := search.depth
  ignore := search.settings.ignoreList
  includeParent := search.settings.images.includeParent

/-- How numbers are read. -/
def numberMode (search : Search) : NumberMode :=
  if search.settings.images.strictNumeric then .strict else .lenient

/-- Whether the output is meant for other programs. -/
def isForPrograms (search : Search) : Bool :=
  search.settings.output.format.isMachineReadable

/-- Text about the search, on the stream for it. -/
def told (search : Search) (text : Text) : Streams :=
  if search.isForPrograms then { diagnostics := text } else { output := text }

/-- Text for people, which is left out where the output is meant for other programs. -/
def toldToPeople (search : Search) (text : Text) : Streams :=
  if search.isForPrograms then {} else { output := text }

/-- The settings that the search goes by, one on each line. -/
def configuration (search : Search) : Text :=
  let images := search.settings.images
  search.flags.configuration .images ++
  labelled "DateFromExif" (Text.ofBool images.dateFromExif) ++
  labelled "RootDir" (Path.shown images.root) ++
  labelled "Pattern" images.pattern ++
  labelled "Include Parent" (Text.ofBool images.includeParent) ++
  labelled "IgnoreDirs" ('[' :: listSeparator.intercalate images.ignoreDirs ++ [']'])

/-- How many directories were ignored, where the flags ask for it. -/
def ignoredLine (search : Search) (found : ScanReport) : Text :=
  if search.flags.verbose || search.flags.debug then
    Text.line ("Ignored ".toList ++ Text.ofNat found.ignored ++
      " directories matching ignore list".toList)
  else []

/-- The line above the outcomes. -/
def depthLine (search : Search) : Text :=
  Text.line ("Directories at depth ".toList ++ Text.ofNat search.depth ++ [':'])

/-- The candidates, where there is no pattern to read them by and the flags ask for them. -/
def candidateLines (search : Search) (found : ScanReport) : Text :=
  if search.pattern.isEmpty && search.flags.verbose then
    found.candidates.flatMap fun candidate => Text.line ("  ".toList ++ Path.location candidate)
  else []

/-- What reading the candidates gives. By the empty pattern nothing is read. -/
def batch (search : Search) (found : ScanReport) : Batch :=
  if search.pattern.isEmpty then {} else search.pattern.readAll search.numberMode found.candidates

/-- Whether an outcome is told to people: failures for debugging, and else successes on request. -/
def tells (search : Search) (outcome : Outcome) : Bool :=
  if outcome.isSuccess then search.flags.verbose && !search.flags.debug else search.flags.debug

/-- The report on the outcomes: all of them for other programs, the asked ones for people. -/
def outcomeReport (search : Search) (batch : Batch) : Except Csv.UnequalRow Text :=
  let style := search.settings.output.format.style search.painted
  if search.isForPrograms then (batch.write style).map Text.line
  else
    .ok <| (batch.outcomes.filter search.tells).flatMap fun outcome =>
      Text.line (outcome.report style)

/-- What is told of a tree that has been scanned, before the outcomes. -/
def heading (search : Search) (found : ScanReport) : Streams :=
  search.told (search.ignoredLine found) ++
  search.toldToPeople (search.depthLine ++ search.candidateLines found)

/-- Reads what has been found and reports on it, behind what was told before. -/
def report (search : Search) (told : Streams) (found : ScanReport) : SearchResult :=
  let batch := search.batch found
  match search.outcomeReport batch with
  | .error e => { streams := told, result := .error (.ofChain [e.message]) }
  | .ok text =>
    { streams := told ++ { output := text } ++ search.told batch.summary, result := .ok batch }

/-- Runs the search. -/
def run (search : Search) (files : FileSystem) : SearchResult :=
  let told := search.told search.configuration
  match files.scan search.settings.images.root search.scanOptions with
  | .error e => { streams := told, result := .error (.ofScanError e) }
  | .ok found => search.report (told ++ search.heading found) found

end Search

end EventFinder
