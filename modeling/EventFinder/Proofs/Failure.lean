import Mathlib.Data.List.Infix
import EventFinder.Failure
import EventFinder.Proofs.Text.Occurrence

/-!
# What helps with a failed scan

The suggestions of a failed scan are looked up by the words of its message, and the message ends
with the path that it is about. The words in front of the path are those of the kind of the error
and decide alone, as long as the path does not hold such words itself (`suggestions_of_path`).
A directory that is named with them is given the hints of another kind, and these are the only
errors for which the kind does not tell what is suggested (`suggestions_eq_hints_iff`).
-/

set_option autoImplicit false

namespace EventFinder

/-! ## Words in front of a path -/

namespace Text

/-- A text without some character begins no later text but what stands in front of that character.
-/
theorem isPrefix_append_cons_of_notMem {c : Char} {needle before rest : Text} (h : c ∉ needle) :
    needle <+: before ++ c :: rest ↔ needle <+: before := by
  constructor
  · intro hbegins
    have hwhole : before ++ [c] <+: before ++ c :: rest := ⟨rest, by simp⟩
    obtain hshort | hlong := List.prefix_or_prefix_of_prefix hbegins hwhole
    · obtain rfl | hbefore := List.prefix_concat_iff.1 hshort
      · simp at h
      · exact hbefore
    · exact absurd (hlong.subset (by simp)) h
  · exact fun hbegins => hbegins.trans (List.prefix_append _ _)

/-- A text without some character does not reach over one. -/
theorem isInfix_append_cons_of_notMem {c : Char} {needle before rest : Text} (h : c ∉ needle) :
    needle <:+: before ++ c :: rest ↔ needle <:+: before ∨ needle <:+: rest := by
  induction before with
  | nil =>
    have hstart : needle <+: [] ++ c :: rest ↔ needle <+: [] := isPrefix_append_cons_of_notMem h
    rw [List.nil_append, List.infix_cons_iff, ← List.nil_append (c :: rest), hstart]
    simp
  | cons d before ih =>
    rw [List.cons_append, List.infix_cons_iff, ih, ← List.cons_append,
      isPrefix_append_cons_of_notMem h, List.infix_cons_iff, or_assoc]

/-- Words without a colon, and with no blank in front, stand before a colon and a blank or behind
them. -/
theorem holds_append_colon {needle lead path : Text} (hcolon : ':' ∉ needle)
    (hblank : needle.head? ≠ some ' ') :
    holds needle (lead ++ ':' :: ' ' :: path) = (holds needle lead || holds needle path) := by
  have hpath : needle <:+: ' ' :: path ↔ needle <:+: path := by
    rw [List.infix_cons_iff, or_iff_right_iff_imp]
    intro hbegins
    cases needle with
    | nil => exact List.nil_infix
    | cons c needle => simp [(List.cons_prefix_cons.1 hbegins).1] at hblank
  rw [Bool.eq_iff_iff, Bool.or_eq_true, holds_iff_isInfix, holds_iff_isInfix, holds_iff_isInfix,
    isInfix_append_cons_of_notMem hcolon, hpath]

end Text

/-! ## Hints by kind -/

namespace ScanErrorKind

/-- What helps with a scan error of the kind. -/
def hints : ScanErrorKind → List Text
  | notFound => [Failure.rootHint]
  | permissionDenied => Failure.permissionHints
  | loop => []
  | other => []

/-- The words that call for the hints of another kind where a path holds them. -/
def misleadingWords : ScanErrorKind → List Text
  | notFound => []
  | permissionDenied => ["not found".toList]
  | loop => ["not found".toList, "Permission".toList, "denied".toList]
  | other => []

/-- What the message of a failed scan says before it names the path. -/
def lead : ScanErrorKind → Text
  | notFound => "Error scanning directories: Directory not found".toList
  | permissionDenied => "Error scanning directories: Permission denied for directory".toList
  | loop => "Error scanning directories: Filesystem loop detected at".toList
  | other => "Error scanning directories: I/O error at".toList

end ScanErrorKind

namespace Failure

/-- What helps with an error of one of the first three kinds is looked up in its message. -/
theorem suggestions_of_known_kind {error : ScanError} (hkind : error.kind ≠ .other) :
    (ofScanError error).suggestions =
      (filesystem ("Error scanning directories: ".toList ++ error.message)).suggestions := by
  unfold ofScanError
  split
  · rename_i hother
    exact absurd hother hkind
  · rfl

variable {kind : ScanErrorKind} {path : Path} {cause : Option SystemError}

/-- The path stands behind the words of the kind, a colon and a blank. -/
theorem message_of_path (hkind : kind ≠ .other) :
    "Error scanning directories: ".toList ++ ScanError.message ⟨kind, some path, cause⟩ =
      kind.lead ++ ':' :: ' ' :: Path.shown path := by
  cases kind with
  | notFound =>
    show _ ++ ("Directory not found: ".toList ++ Path.shown path) =
      "Error scanning directories: Directory not found".toList ++ _
    simp
  | permissionDenied =>
    show _ ++ ("Permission denied for directory: ".toList ++ Path.shown path) =
      "Error scanning directories: Permission denied for directory".toList ++ _
    simp
  | loop =>
    show _ ++ ("Filesystem loop detected at: ".toList ++ Path.shown path) =
      "Error scanning directories: Filesystem loop detected at".toList ++ _
    simp
  | other => exact absurd rfl hkind

/-- The words of a message about a path are those of its kind and those in the path. -/
theorem suggestions_of_path (hkind : kind ≠ .other) :
    (ofScanError ⟨kind, some path, cause⟩).suggestions =
      if Text.holds "not found".toList kind.lead ||
          Text.holds "not found".toList (Path.shown path) then [rootHint]
      else if (Text.holds "Permission".toList kind.lead ||
          Text.holds "Permission".toList (Path.shown path)) ||
        (Text.holds "denied".toList kind.lead ||
          Text.holds "denied".toList (Path.shown path)) then permissionHints
      else [] := by
  have hfound := @Text.holds_append_colon "not found".toList kind.lead (Path.shown path)
    (by decide) (by decide)
  have hpermission := @Text.holds_append_colon "Permission".toList kind.lead (Path.shown path)
    (by decide) (by decide)
  have hdenied := @Text.holds_append_colon "denied".toList kind.lead (Path.shown path)
    (by decide) (by decide)
  rw [suggestions_of_known_kind hkind, message_of_path hkind, filesystem, hfound, hpermission,
    hdenied]

/-- Without a path, there are no words but those of the kind. -/
theorem suggestions_of_no_path :
    (ofScanError ⟨kind, none, cause⟩).suggestions = kind.hints := by
  cases kind with
  | notFound =>
    show (filesystem ("Error scanning directories: ".toList ++
      "Directory not found".toList)).suggestions = [rootHint]
    decide +kernel
  | permissionDenied =>
    show (filesystem ("Error scanning directories: ".toList ++
      "Permission denied".toList)).suggestions = permissionHints
    decide +kernel
  | loop =>
    show (filesystem ("Error scanning directories: ".toList ++
      "Filesystem loop detected".toList)).suggestions = []
    decide +kernel
  | other => rfl

/-- A directory that must not be read gets the hint for a missing one if its path says so. -/
theorem suggestions_of_denied_path :
    (ofScanError ⟨.permissionDenied, some path, cause⟩).suggestions =
      if Text.holds "not found".toList (Path.shown path) then [rootHint] else permissionHints := by
  obtain ⟨hfound, hpermission⟩ :
      Text.holds "not found".toList ScanErrorKind.permissionDenied.lead = false ∧
        Text.holds "Permission".toList ScanErrorKind.permissionDenied.lead = true := by
    decide +kernel
  rw [suggestions_of_path (by decide), hfound, hpermission]
  rfl

/-- A loop gets the hints that the words in its path call for. -/
theorem suggestions_of_loop_path :
    (ofScanError ⟨.loop, some path, cause⟩).suggestions =
      (filesystem (Path.shown path)).suggestions := by
  obtain ⟨hfound, hpermission, hdenied⟩ :
      Text.holds "not found".toList ScanErrorKind.loop.lead = false ∧
        Text.holds "Permission".toList ScanErrorKind.loop.lead = false ∧
        Text.holds "denied".toList ScanErrorKind.loop.lead = false := by
    decide +kernel
  rw [suggestions_of_path (by decide), hfound, hpermission, hdenied]
  rfl

/-- A missing directory gets the hint for one, whatever its path is. -/
theorem suggestions_of_missing_path :
    (ofScanError ⟨.notFound, some path, cause⟩).suggestions = [rootHint] := by
  have hfound : Text.holds "not found".toList ScanErrorKind.notFound.lead = true := by
    decide +kernel
  rw [suggestions_of_path (by decide), hfound]
  rfl

/-- What the system says about an error is not looked at. -/
theorem suggestions_of_cause (kind : ScanErrorKind) (path : Option Path)
    (cause other : Option SystemError) :
    (ofScanError ⟨kind, path, cause⟩).suggestions =
      (ofScanError ⟨kind, path, other⟩).suggestions := by
  cases kind with
  | other => rfl
  | _ =>
    rw [suggestions_of_known_kind (by simp), suggestions_of_known_kind (by simp)]
    rfl

/-- A failure of the file system has no suggestion if none of the words that are looked up stands
in its summary. -/
theorem suggestions_filesystem_eq_nil_iff {summary : Text} :
    (filesystem summary).suggestions = [] ↔
      Text.holds "not found".toList summary = false ∧
        Text.holds "Permission".toList summary = false ∧
        Text.holds "denied".toList summary = false := by
  simp only [filesystem]
  cases Text.holds "not found".toList summary <;>
    cases Text.holds "Permission".toList summary <;>
      cases Text.holds "denied".toList summary <;> decide

/-- The kind of a scan error tells what is suggested exactly if the path of the error holds none of
the words that call for other hints. What the system says about the error is never looked at. -/
theorem suggestions_eq_hints_iff (error : ScanError) :
    ((ofScanError error).suggestions = error.kind.hints ↔
      ∀ path ∈ error.path, ∀ words ∈ error.kind.misleadingWords,
        ¬ words <:+: Path.shown path) ∧
    ∀ cause, (ofScanError { error with cause }).suggestions = (ofScanError error).suggestions := by
  obtain ⟨kind, path, cause⟩ := error
  constructor
  · cases path with
    | none => exact iff_of_true suggestions_of_no_path (by simp)
    | some path =>
      simp only [Option.mem_some_iff, forall_eq', ← Text.holds_iff_isInfix, Bool.not_eq_true]
      cases kind with
      | notFound => exact iff_of_true suggestions_of_missing_path nofun
      | permissionDenied =>
        rw [suggestions_of_denied_path, ScanErrorKind.misleadingWords, List.forall_mem_singleton]
        cases Text.holds "not found".toList (Path.shown path) <;> decide
      | loop =>
        rw [suggestions_of_loop_path, ScanErrorKind.hints, suggestions_filesystem_eq_nil_iff,
          ScanErrorKind.misleadingWords]
        simp only [List.forall_mem_cons, List.not_mem_nil, IsEmpty.forall_iff, implies_true,
          and_true]
      | other => exact iff_of_true rfl nofun
  · exact fun other => suggestions_of_cause kind path other cause

/-- Names of directories change what is suggested: one that must not be read is reported as missing,
and a loop gets the hints for one that must not be read. -/
theorem suggestions_of_misleading_paths :
    let denied : SystemError := ⟨.permissionDenied, "Permission denied (os error 13)".toList⟩
    let plain := ScanError.permissionDenied (Text.toBytes "photos".toList) denied
    let misleading := ScanError.permissionDenied (Text.toBytes "photos/not found".toList) denied
    plain.kind = misleading.kind ∧
      (ofScanError plain).suggestions = permissionHints ∧
      (ofScanError misleading).suggestions = [rootHint] ∧
      (ofScanError (ScanError.loop (Text.toBytes "Permission slips".toList))).suggestions ≠ [] := by
  decide +kernel

end Failure

end EventFinder
