import EventFinder.Proofs.Text.Occurrence
import EventFinder.Proofs.Text.Offsets

/-!
# Boundaries by offset

The boundary search as one does it who has the text in memory as bytes: the first and the last
occurrence of a literal are offsets, and a cut is found by taking the beginnings of the literal,
longest first, until the text ends with one. The beginnings are slices, all of them between
characters, and the offsets are those of the boundaries (`boundaryOffset?_eq`).
-/

set_option autoImplicit false

namespace EventFinder

namespace Text

/-- The offset of the last or of the first occurrence of the literal. -/
def occurrenceOffset? (greedy : Bool) (literal text : Text) : Option Nat :=
  (if greedy then lastOccurrence literal text else firstOccurrence literal text).map
    fun parts => parts.1.byteLength

/-- The offsets at which the characters of a text start. -/
def characterOffsets : Text → List Nat
  | [] => []
  | c :: text => 0 :: (characterOffsets text).map (c.utf8Size + ·)

/-- The offset of the first beginning of the literal that the text ends with, where the beginnings
stop at the given offsets. There is no result if one of them would end inside a character. -/
def firstCutOffset? (literal text : Text) : List Nat → Option (Option Nat)
  | [] => some none
  | stop :: stops =>
    match literal.slice? 0 stop with
    | none => none
    | some cut =>
      if cut.isSuffixOf text then some (some (text.byteLength - stop))
      else firstCutOffset? literal text stops

/-- The offset of the longest beginning of the literal that the text ends with, neither empty nor
all of the literal. -/
def cutOffset? (literal text : Text) : Option (Option Nat) :=
  firstCutOffset? literal text ((characterOffsets literal).filter (0 < ·)).reverse

/-- The offset at which a capture ends that the literal follows. -/
def boundaryOffset? (greedy : Bool) (literal text : Text) : Option (Option Nat) :=
  match occurrenceOffset? greedy literal text with
  | some offset => some (some offset)
  | none => cutOffset? literal text

/-! ## Beginnings of a literal -/

/-- The beginnings of a text that are not all of it, shortest first. -/
def properPrefixes : Text → List Text
  | [] => []
  | c :: text => [] :: (properPrefixes text).map (c :: ·)

/-- The listed beginnings are all that there are. -/
theorem mem_properPrefixes_iff {cut literal : Text} :
    cut ∈ properPrefixes literal ↔ ProperPrefix cut literal := by
  induction literal generalizing cut with
  | nil => simp [properPrefixes, ProperPrefix]
  | cons c literal ih =>
    rcases cut with _ | ⟨d, cut⟩
    · simp [properPrefixes, ProperPrefix]
    · simp only [properPrefixes, List.mem_cons, reduceCtorEq, List.mem_map, List.cons.injEq,
        false_or, ih, ProperPrefix, List.cons_prefix_cons, ne_eq, not_and]
      constructor
      · rintro ⟨_, ⟨hbegins, hne⟩, rfl, rfl⟩
        exact ⟨⟨rfl, hbegins⟩, fun _ => hne⟩
      · rintro ⟨⟨rfl, hbegins⟩, hne⟩
        exact ⟨cut, ⟨hbegins, hne rfl⟩, rfl, rfl⟩

/-- The beginnings are listed from the shortest to the longest. -/
theorem pairwise_properPrefixes (literal : Text) :
    (properPrefixes literal).Pairwise fun first second => first.length < second.length := by
  induction literal with
  | nil => exact .nil
  | cons c literal ih =>
    refine List.pairwise_cons.2 ⟨by simp, List.pairwise_map.2 ?_⟩
    simpa using ih

/-- A character starts where a beginning of the text ends. -/
theorem characterOffsets_eq (literal : Text) :
    characterOffsets literal = (properPrefixes literal).map byteLength := by
  induction literal with
  | nil => rfl
  | cons c literal ih => simp [characterOffsets, properPrefixes, ih, Function.comp_def]

/-- The beginnings of a text that are neither empty nor all of it, longest first. -/
def cuts (literal : Text) : List Text :=
  ((properPrefixes literal).filter (· ≠ [])).reverse

/-- The cuts of a literal are its beginnings that are neither empty nor all of it. -/
theorem mem_cuts_iff {cut literal : Text} :
    cut ∈ cuts literal ↔ ProperPrefix cut literal ∧ cut ≠ [] := by
  simp [cuts, mem_properPrefixes_iff]

/-- The cuts are listed from the longest to the shortest. -/
theorem pairwise_cuts (literal : Text) :
    (cuts literal).Pairwise fun first second => second.length < first.length :=
  List.pairwise_reverse.2 ((pairwise_properPrefixes literal).filter _)

/-- The offsets that are tried are those of the cuts, in their order. -/
theorem reverse_filter_characterOffsets (literal : Text) :
    ((characterOffsets literal).filter (0 < ·)).reverse = (cuts literal).map byteLength := by
  have hpos : ∀ cut : Text, 0 < cut.byteLength ↔ cut ≠ [] := by
    intro cut
    refine ⟨?_, byteLength_pos⟩
    rintro hpos rfl
    exact absurd hpos (by simp)
  rw [characterOffsets_eq, List.filter_map, ← List.map_reverse, cuts]
  congr 2
  apply List.filter_congr
  intro cut _
  simp [hpos]

/-! ## Cuts by offset -/

/-- The first of some beginnings of the literal that the text ends with is found by their lengths.
-/
theorem firstCutOffset?_map {literal text : Text} {beginnings : List Text}
    (h : ∀ cut ∈ beginnings, cut <+: literal) :
    firstCutOffset? literal text (beginnings.map byteLength) =
      some ((beginnings.find? (·.isSuffixOf text)).map fun cut =>
        text.byteLength - cut.byteLength) := by
  induction beginnings with
  | nil => rfl
  | cons cut beginnings ih =>
    obtain ⟨rest, hrest⟩ := h cut List.mem_cons_self
    have hslice : literal.slice? 0 cut.byteLength = some cut :=
      slice?_eq_some_iff.2 ⟨[], rest, hrest.symm, rfl, rfl⟩
    rw [List.map_cons, firstCutOffset?, hslice, List.find?_cons]
    simp only []
    split
    · rename_i hends
      simp only [hends]
      rfl
    · rename_i hends
      rw [ih fun other hother => h other (List.mem_cons_of_mem _ hother)]
      simp only [hends]

/-- The first cut that the text ends with is the longest one. -/
theorem longestCut_of_find?_cuts {literal text cut : Text}
    (h : (cuts literal).find? (·.isSuffixOf text) = some cut) :
    cut ≠ [] ∧ LongestCut literal text cut := by
  obtain ⟨hends, longer, shorter, hcuts, hlonger⟩ := List.find?_eq_some_iff_append.1 h
  have hmem : cut ∈ cuts literal := by simp [hcuts]
  obtain ⟨hproper, hne⟩ := mem_cuts_iff.1 hmem
  refine ⟨hne, List.isSuffixOf_iff_suffix.1 hends, hproper, ?_⟩
  intro other hother hotherProper
  by_cases hnil : other = []
  · simp [hnil]
  have hsorted := pairwise_cuts literal
  rw [hcuts] at hsorted
  have hin : other ∈ longer ++ cut :: shorter := hcuts ▸ mem_cuts_iff.2 ⟨hotherProper, hnil⟩
  obtain hin | hin := List.mem_append.1 hin
  · have hnot := hlonger other hin
    simp [List.isSuffixOf_iff_suffix.2 hother] at hnot
  · obtain rfl | hin := List.mem_cons.1 hin
    · exact le_rfl
    · have hlt := (List.pairwise_cons.1 (List.pairwise_append.1 hsorted).2.1).1 other hin
      exact hlt.le

/-- The first cut that the text ends with is the longest one. -/
theorem find?_cuts_of_longestCut {literal text cut : Text} (hne : cut ≠ [])
    (h : LongestCut literal text cut) : (cuts literal).find? (·.isSuffixOf text) = some cut := by
  have hmem : cut ∈ cuts literal := mem_cuts_iff.2 ⟨h.isProper, hne⟩
  cases hfind : (cuts literal).find? (·.isSuffixOf text) with
  | none =>
    have hends := List.isSuffixOf_iff_suffix.2 h.isSuffix
    simpa [hends] using List.find?_eq_none.1 hfind cut hmem
  | some other => rw [h.eq (longestCut_of_find?_cuts hfind).2]

/-- The search by offsets finds the boundary of a truncated occurrence, and every slice that it
takes of the literal is one of whole characters. -/
theorem cutOffset?_eq (literal text : Text) :
    cutOffset? literal text =
      some ((truncatedOccurrence literal text).map fun parts => parts.1.byteLength) := by
  have hbegins : ∀ cut ∈ cuts literal, cut <+: literal := fun cut hcut =>
    (mem_cuts_iff.1 hcut).1.1
  rw [cutOffset?, reverse_filter_characterOffsets, firstCutOffset?_map hbegins]
  congr 1
  cases htruncated : truncatedOccurrence literal text with
  | none =>
    cases hfind : (cuts literal).find? (·.isSuffixOf text) with
    | none => rfl
    | some cut =>
      obtain ⟨hne, hlongest⟩ := longestCut_of_find?_cuts hfind
      obtain ⟨before, rfl⟩ := hlongest.isSuffix
      have hsome := truncatedOccurrence_eq_some_iff.2 ⟨rfl, hne, hlongest⟩
      rw [htruncated] at hsome
      cases hsome
  | some parts =>
    obtain ⟨before, cut⟩ := parts
    obtain ⟨rfl, hne, hlongest⟩ := truncatedOccurrence_eq_some_iff.1 htruncated
    simp [find?_cuts_of_longestCut hne hlongest]

/-- The boundary search by offset finds the places of the boundaries, and takes no slice that would
end inside a character. -/
theorem boundaryOffset?_eq (greedy : Bool) (literal text : Text) :
    boundaryOffset? greedy literal text =
      some ((boundary greedy literal text).map fun parts => parts.1.byteLength) := by
  unfold boundaryOffset? occurrenceOffset? boundary
  cases (if greedy then lastOccurrence literal text else firstOccurrence literal text) with
  | none => simpa using cutOffset?_eq literal text
  | some parts => rfl

/-- The offsets count bytes: the separator is cut off behind a letter of two bytes. -/
example : boundaryOffset? false " - ".toList "Café -".toList = some (some 5) := by
  decide

end Text

end EventFinder
