import Mathlib.Order.Bounds.Basic
import EventFinder.Proofs.Text.BoundaryOffsets
import EventFinder.Proofs.Text.Decoding

/-!
# Boundaries by bytes

What the boundary search finds is said here on the bytes of the two texts, by the least and the
greatest offset at which the bytes of the literal stand, and by the largest number of its bytes that
the text ends with (`splitOffset?_at_occurrence_or_cut`). Bytes are compared anywhere, also from the
middle of a character; that no occurrence begins or ends there is a fact about the encoding
(`occursAtByte_iff`, `toBytes_isSuffix_iff`), and not a part of the definitions.
-/

set_option autoImplicit false

namespace EventFinder

namespace Text

/-- The bytes of the literal stand in those of the text, behind the first `offset` ones. -/
def OccursAtByte (literal text : Text) (offset : Nat) : Prop :=
  literal.toBytes <+: text.toBytes.drop offset

/-- The numbers of bytes that the text can end with of the literal: those of its beginnings that are
neither empty nor all of it. -/
def cutSizes (literal text : Text) : Set Nat :=
  {size | ∃ cut, ProperPrefix cut literal ∧ cut ≠ [] ∧ cut.toBytes <:+ text.toBytes ∧
    size = cut.byteLength}

/-- The offset in bytes of the boundary at which the text is split. -/
def splitOffset? (greedy : Bool) (literal text : Text) : Option Nat :=
  (boundary greedy literal text).map fun parts => parts.1.byteLength

/-! ## Bytes and characters -/

/-- The bytes of a text are those of its first character and then those of the others. -/
theorem toBytes_cons (c : Char) (text : Text) :
    toBytes (c :: text) = String.utf8EncodeChar c ++ text.toBytes :=
  rfl

/-- A text has as many bytes as its length in bytes says. -/
theorem length_toBytes (text : Text) : text.toBytes.length = text.byteLength := by
  induction text with
  | nil => rfl
  | cons c text ih =>
    rw [toBytes_cons, List.length_append, String.length_utf8EncodeChar, ih, byteLength_cons]

/-- The bytes of a text begin with those of another one exactly if the text begins with it. -/
theorem toBytes_isPrefix_iff {first second : Text} :
    first.toBytes <+: second.toBytes ↔ first <+: second := by
  constructor
  · rintro ⟨rest, hrest⟩
    have hdecoded := Bytes.toText_toBytes_append first rest
    rw [hrest, Bytes.toText_toBytes] at hdecoded
    exact ⟨_, hdecoded.symm⟩
  · rintro ⟨rest, rfl⟩
    exact ⟨toBytes rest, (toBytes_append first rest).symm⟩

/-- No bytes of a text begin inside a character. -/
theorem not_occursAtByte_inside {literal text : Text} (hliteral : literal ≠ []) {c : Char}
    {offset : Nat} (hpos : 0 < offset) (hlt : offset < c.utf8Size) :
    ¬ OccursAtByte literal (c :: text) offset := by
  intro hoccurs
  obtain ⟨d, literal, rfl⟩ := List.exists_cons_of_ne_nil hliteral
  have hbound : offset < (String.utf8EncodeChar c).length := by simpa using hlt
  have hstart : 0 < (String.utf8EncodeChar d).length := by simpa using d.utf8Size_pos
  have hdrop : (toBytes (c :: text)).drop offset =
      (String.utf8EncodeChar c)[offset] ::
        ((String.utf8EncodeChar c).drop (offset + 1) ++ toBytes text) := by
    rw [toBytes_cons, List.drop_append_of_le_length hbound.le, List.drop_eq_getElem_cons hbound,
      List.cons_append]
  have hbytes : toBytes (d :: literal) =
      (String.utf8EncodeChar d)[0] :: ((String.utf8EncodeChar d).drop 1 ++ toBytes literal) := by
    rw [toBytes_cons, ← List.cons_append, ← List.drop_eq_getElem_cons hstart, List.drop_zero]
  -- The first byte of a character cannot be one of the bytes that follow it in a character.
  rw [OccursAtByte, hdrop, hbytes] at hoccurs
  have hhead := (List.cons_prefix_cons.1 hoccurs).1
  have hfirst : (String.utf8EncodeChar d)[0].IsUTF8FirstByte :=
    UInt8.isUTF8FirstByte_getElem_utf8EncodeChar.2 rfl
  rw [hhead, UInt8.isUTF8FirstByte_getElem_utf8EncodeChar] at hfirst
  omega

/-- Behind the first character, places are counted from there. -/
theorem occursAtByte_cons {literal text : Text} {c : Char} {offset : Nat}
    (h : c.utf8Size ≤ offset) :
    OccursAtByte literal (c :: text) offset ↔ OccursAtByte literal text (offset - c.utf8Size) := by
  have hlength : (String.utf8EncodeChar c).length ≤ offset := by simpa using h
  rw [OccursAtByte, OccursAtByte, toBytes_cons, List.drop_append, List.drop_eq_nil_of_le hlength,
    List.nil_append, String.length_utf8EncodeChar]

/-- The bytes of a literal are found between two characters only, at the start of the literal. -/
theorem occursAtByte_iff {literal text : Text} (hliteral : literal ≠ []) {offset : Nat} :
    OccursAtByte literal text offset ↔
      ∃ before rest, text = before ++ rest ∧ offset = before.byteLength ∧ literal <+: rest := by
  constructor
  · intro hoccurs
    induction text generalizing offset with
    | nil =>
      have hnil : toBytes literal <+: toBytes [] := by simpa [OccursAtByte, toBytes] using hoccurs
      exact absurd (List.prefix_nil.1 (toBytes_isPrefix_iff.1 hnil)) hliteral
    | cons c text ih =>
      rcases Nat.lt_or_ge offset c.utf8Size with hlt | hge
      · obtain rfl | hpos := Nat.eq_zero_or_pos offset
        · exact ⟨[], c :: text, rfl, rfl, toBytes_isPrefix_iff.1 hoccurs⟩
        · exact absurd hoccurs (not_occursAtByte_inside hliteral hpos hlt)
      · obtain ⟨before, rest, rfl, hoffset, hbegins⟩ := ih ((occursAtByte_cons hge).1 hoccurs)
        refine ⟨c :: before, rest, rfl, ?_, hbegins⟩
        rw [byteLength_cons]
        omega
  · rintro ⟨before, rest, rfl, rfl, hbegins⟩
    rw [OccursAtByte, toBytes_append, ← length_toBytes, List.drop_left]
    exact toBytes_isPrefix_iff.2 hbegins

/-- The bytes of a text end with those of another one exactly if the text ends with it. -/
theorem toBytes_isSuffix_iff {cut text : Text} : cut.toBytes <:+ text.toBytes ↔ cut <:+ text := by
  constructor
  · intro hends
    obtain rfl | hne := eq_or_ne cut []
    · exact List.nil_suffix
    have hdrop := List.suffix_iff_eq_drop.1 hends
    have hoccurs : OccursAtByte cut text (text.toBytes.length - cut.toBytes.length) := by
      rw [OccursAtByte, ← hdrop]
    obtain ⟨before, rest, rfl, hoffset, ⟨tail, rfl⟩⟩ := (occursAtByte_iff hne).1 hoccurs
    have hle := hends.length_le
    simp only [length_toBytes, byteLength_append] at hoffset hle
    have htail : tail = [] := by
      by_contra hne
      have := byteLength_pos hne
      omega
    exact ⟨before, by simp [htail]⟩
  · rintro ⟨before, rfl⟩
    exact ⟨toBytes before, (toBytes_append before cut).symm⟩

/-! ## The ends of the search -/

/-- The first occurrence is at the least offset. -/
theorem isLeast_of_firstOccurrence {literal text before rest : Text} (hliteral : literal ≠ [])
    (h : firstOccurrence literal text = some (before, rest)) :
    IsLeast {offset | OccursAtByte literal text offset} before.byteLength := by
  obtain ⟨htext, hbegins, hnone⟩ := firstOccurrence_eq_some_iff.1 h
  refine ⟨(occursAtByte_iff hliteral).2 ⟨before, rest, htext, rfl, hbegins⟩, ?_⟩
  intro offset hoffset
  obtain ⟨other, behind, hother, rfl, hoccurs⟩ := (occursAtByte_iff hliteral).1 hoffset
  have hle : before.length ≤ other.length := by
    by_contra hlt
    refine hnone other.length (Nat.lt_of_not_le hlt) ?_
    rw [hother, occursAt_append_length]
    exact hoccurs
  have hprefix : before <+: other :=
    List.prefix_of_prefix_length_le ⟨rest, htext.symm⟩ ⟨behind, hother.symm⟩ hle
  obtain ⟨between, rfl⟩ := hprefix
  rw [byteLength_append]
  exact Nat.le_add_right _ _

/-- The last occurrence is at the greatest offset. -/
theorem isGreatest_of_lastOccurrence {literal text before rest : Text} (hliteral : literal ≠ [])
    (h : lastOccurrence literal text = some (before, rest)) :
    IsGreatest {offset | OccursAtByte literal text offset} before.byteLength := by
  obtain ⟨htext, hbegins, honly⟩ := lastOccurrence_eq_some_iff.1 h
  refine ⟨(occursAtByte_iff hliteral).2 ⟨before, rest, htext, rfl, hbegins⟩, ?_⟩
  intro offset hoffset
  obtain ⟨other, behind, hother, rfl, hoccurs⟩ := (occursAtByte_iff hliteral).1 hoffset
  obtain ⟨between, rfl⟩ | ⟨between, rfl⟩ :=
    List.prefix_or_prefix_of_prefix ⟨rest, htext.symm⟩ (⟨behind, hother.symm⟩ : other <+: text)
  · -- An occurrence further behind would be one in the text behind the last one.
    rw [htext, List.append_assoc, List.append_cancel_left_eq] at hother
    have hzero := honly between.length (by rw [hother, occursAt_append_length]; exact hoccurs)
    rw [List.length_eq_zero_iff.1 hzero, List.append_nil]
  · rw [byteLength_append]
    exact Nat.le_add_right _ _

/-- Of two ends of a text, the one with more characters has no fewer bytes. -/
theorem byteLength_le_of_isSuffix {cut other text : Text} (hcut : cut <:+ text)
    (hother : other <:+ text) (h : cut.length ≤ other.length) :
    cut.byteLength ≤ other.byteLength := by
  obtain ⟨before, rfl⟩ := List.suffix_of_suffix_length_le hcut hother h
  rw [byteLength_append]
  exact Nat.le_add_left _ _

/-- The longest cut has the greatest number of bytes. -/
theorem isGreatest_cutSizes {literal text cut : Text} (hne : cut ≠ [])
    (h : LongestCut literal text cut) : IsGreatest (cutSizes literal text) cut.byteLength := by
  refine ⟨⟨cut, h.isProper, hne, toBytes_isSuffix_iff.2 h.isSuffix, rfl⟩, ?_⟩
  rintro _ ⟨other, hproper, -, hends, rfl⟩
  have hother := toBytes_isSuffix_iff.1 hends
  exact byteLength_le_of_isSuffix hother h.isSuffix (h.longest other hother hproper)

/-- Without a cut that is not empty, the longest one is empty. -/
theorem cutSizes_eq_empty_iff {literal text : Text} (hliteral : literal ≠ []) :
    cutSizes literal text = ∅ ↔ LongestCut literal text [] := by
  rw [Set.eq_empty_iff_forall_notMem]
  constructor
  · intro hnone
    refine ⟨List.nil_suffix, properPrefix_nil hliteral, fun other hends hproper => ?_⟩
    by_contra hlength
    have hne : other ≠ [] := by
      rintro rfl
      exact hlength le_rfl
    exact hnone _ ⟨other, hproper, hne, toBytes_isSuffix_iff.2 hends, rfl⟩
  · rintro hlongest _ ⟨other, hproper, hne, hends, -⟩
    have hle := hlongest.longest other (toBytes_isSuffix_iff.1 hends) hproper
    exact hne (List.length_eq_zero_iff.1 (Nat.le_zero.1 hle))

/-! ## The offset of a split -/

/-- A text is split at an offset exactly if its boundary is there. -/
theorem splitOffset?_eq_some_iff {greedy : Bool} {literal text : Text} {offset : Nat} :
    splitOffset? greedy literal text = some offset ↔
      ∃ before rest : Text, boundary greedy literal text = some (before, rest) ∧
        before.byteLength = offset := by
  simp [splitOffset?]

/-- A literal occurs at some byte exactly if it occurs at all. -/
theorem nonempty_occursAtByte_iff {literal text : Text} (hliteral : literal ≠ []) :
    {offset | OccursAtByte literal text offset}.Nonempty ↔ literal <:+: text := by
  constructor
  · rintro ⟨offset, hoffset⟩
    obtain ⟨before, rest, rfl, -, hbegins⟩ := (occursAtByte_iff hliteral).1 hoffset
    exact hbegins.isInfix.trans (List.suffix_append before rest).isInfix
  · rintro ⟨before, after, rfl⟩
    exact ⟨byteLength before, (occursAtByte_iff hliteral).2
      ⟨before, literal ++ after, by simp, rfl, List.prefix_append literal after⟩⟩

/-- A literal that occurs is found in both directions. -/
theorem splitOffset?_of_isInfix {literal text : Text} (hliteral : literal ≠ [])
    (h : literal <:+: text) :
    ∃ first last, splitOffset? false literal text = some first ∧
      splitOffset? true literal text = some last ∧
      IsLeast {offset | OccursAtByte literal text offset} first ∧
      IsGreatest {offset | OccursAtByte literal text offset} last := by
  obtain ⟨⟨before, rest⟩, hfirst⟩ :=
    Option.ne_none_iff_exists'.1 fun hnone => firstOccurrence_eq_none_iff.1 hnone h
  obtain ⟨⟨ahead, behind⟩, hlast⟩ :=
    Option.ne_none_iff_exists'.1 fun hnone => lastOccurrence_eq_none_iff.1 hnone h
  refine ⟨before.byteLength, ahead.byteLength, ?_, ?_, isLeast_of_firstOccurrence hliteral hfirst,
    isGreatest_of_lastOccurrence hliteral hlast⟩
  · simp [splitOffset?, boundary, hfirst]
  · simp [splitOffset?, boundary, hlast]

/-- Where the literal does not occur, the text is split in front of the longest cut. -/
theorem splitOffset?_eq_some_iff_of_not_isInfix {greedy : Bool} {literal text : Text} {offset : Nat}
    (hliteral : literal ≠ []) (h : ¬ literal <:+: text) :
    splitOffset? greedy literal text = some offset ↔
      ∃ size, IsGreatest (cutSizes literal text) size ∧ offset + size = text.byteLength := by
  rw [splitOffset?_eq_some_iff, boundary_of_not_isInfix h]
  constructor
  · rintro ⟨before, cut, htruncated, rfl⟩
    obtain ⟨rfl, hne, hlongest⟩ := truncatedOccurrence_eq_some_iff.1 htruncated
    exact ⟨cut.byteLength, isGreatest_cutSizes hne hlongest, (byteLength_append before cut).symm⟩
  · rintro ⟨size, hgreatest, hoffset⟩
    cases htruncated : truncatedOccurrence literal text with
    | none =>
      have hempty := (cutSizes_eq_empty_iff hliteral).2
        ((truncatedOccurrence_eq_none_iff hliteral).1 htruncated)
      exact absurd hgreatest.1 (hempty ▸ Set.notMem_empty size)
    | some parts =>
      obtain ⟨before, cut⟩ := parts
      obtain ⟨rfl, hne, hlongest⟩ := truncatedOccurrence_eq_some_iff.1 htruncated
      obtain rfl := hgreatest.unique (isGreatest_cutSizes hne hlongest)
      rw [byteLength_append, Nat.add_right_cancel_iff] at hoffset
      exact ⟨before, cut, rfl, hoffset.symm⟩

/-- Without an occurrence the text is split unless it ends with no cut of the literal. -/
theorem splitOffset?_eq_none_iff_of_not_isInfix {greedy : Bool} {literal text : Text}
    (hliteral : literal ≠ []) (h : ¬ literal <:+: text) :
    splitOffset? greedy literal text = none ↔ cutSizes literal text = ∅ := by
  rw [splitOffset?, Option.map_eq_none_iff, boundary_eq_none_iff hliteral,
    cutSizes_eq_empty_iff hliteral, and_iff_right h]

/-- Without an occurrence both kinds of captures end at the same place. -/
theorem splitOffset?_eq_of_not_isInfix {literal text : Text} (h : ¬ literal <:+: text) :
    splitOffset? true literal text = splitOffset? false literal text := by
  rw [splitOffset?, splitOffset?, boundary_of_not_isInfix h, boundary_of_not_isInfix h]

/-- A split is between two characters, in front of the literal or of a beginning of it. -/
theorem splitAt?_splitOffset? {greedy : Bool} {literal text : Text} {offset : Nat}
    (h : splitOffset? greedy literal text = some offset) :
    offset ≤ text.byteLength ∧ ∃ before rest, splitAt? offset text = some (before, rest) ∧
      (literal <+: rest ∨ ProperPrefix rest literal) := by
  obtain ⟨before, rest, hboundary, rfl⟩ := splitOffset?_eq_some_iff.1 h
  obtain ⟨rfl, hrest⟩ := boundary_eq_some hboundary
  refine ⟨?_, before, rest, splitAt?_append before rest, ?_⟩
  · rw [byteLength_append]
    exact Nat.le_add_right _ _
  · exact hrest.imp And.left fun hcut => hcut.2.2.isProper

/-- A greedy capture ends no earlier than one that is not greedy. -/
theorem splitOffset?_le {literal text : Text} {first last : Nat} (hliteral : literal ≠ [])
    (hfirst : splitOffset? false literal text = some first)
    (hlast : splitOffset? true literal text = some last) : first ≤ last := by
  by_cases h : literal <:+: text
  · obtain ⟨least, greatest, hleast, hgreatest, hfound, hfoundLast⟩ :=
      splitOffset?_of_isInfix hliteral h
    obtain rfl := Option.some.inj (hfirst.symm.trans hleast)
    obtain rfl := Option.some.inj (hlast.symm.trans hgreatest)
    exact hfound.2 hfoundLast.1
  · rw [splitOffset?_eq_of_not_isInfix h, hfirst] at hlast
    exact (Option.some.inj hlast).le

/-- A literal that occurs is found at the least offset of its bytes or, from the other end, at the
greatest one. One that does not occur is found in both directions where the text ends with a
beginning of it, the longest there is, and otherwise not at all. Each split is between two
characters and in front of the literal or of a beginning of it, and the first one is not behind the
last one. The search by offset, which tries the beginnings of the literal as slices, finds the same
and takes no slice inside a character. -/
theorem splitOffset?_at_occurrence_or_cut {literal : Text} (hliteral : literal ≠ [])
    (text : Text) :
    ({offset | OccursAtByte literal text offset}.Nonempty →
      ∃ first last, splitOffset? false literal text = some first ∧
        splitOffset? true literal text = some last ∧
        IsLeast {offset | OccursAtByte literal text offset} first ∧
        IsGreatest {offset | OccursAtByte literal text offset} last) ∧
    ((∀ offset, ¬ OccursAtByte literal text offset) →
      splitOffset? true literal text = splitOffset? false literal text ∧
      (∀ greedy offset, splitOffset? greedy literal text = some offset ↔
        ∃ size, IsGreatest (cutSizes literal text) size ∧ offset + size = text.byteLength) ∧
      ∀ greedy, splitOffset? greedy literal text = none ↔ cutSizes literal text = ∅) ∧
    (∀ greedy offset, splitOffset? greedy literal text = some offset →
      offset ≤ text.byteLength ∧ ∃ before rest, splitAt? offset text = some (before, rest) ∧
        (literal <+: rest ∨ ProperPrefix rest literal)) ∧
    (∀ first last, splitOffset? false literal text = some first →
      splitOffset? true literal text = some last → first ≤ last) ∧
    ∀ greedy, boundaryOffset? greedy literal text = some (splitOffset? greedy literal text) := by
  refine ⟨fun hoccurs => ?_, fun hnone => ?_, fun greedy offset => splitAt?_splitOffset?,
    fun first last => splitOffset?_le hliteral,
    fun greedy => boundaryOffset?_eq greedy literal text⟩
  · exact splitOffset?_of_isInfix hliteral ((nonempty_occursAtByte_iff hliteral).1 hoccurs)
  · have hin : ¬ literal <:+: text := fun h =>
      have ⟨offset, hoffset⟩ := (nonempty_occursAtByte_iff hliteral).2 h
      hnone offset hoffset
    exact ⟨splitOffset?_eq_of_not_isInfix hin,
      fun greedy offset => splitOffset?_eq_some_iff_of_not_isInfix hliteral hin,
      fun greedy => splitOffset?_eq_none_iff_of_not_isInfix hliteral hin⟩

/-- Two occurrences that share a dash of three bytes, behind a letter of two, and a text that stops
inside the literal. -/
theorem splitOffset?_of_shared_dash :
    let literal : Text := "–-–".toList
    let shared : Text := "é–-–-–".toList
    let cut : Text := "é –-".toList
    literal ≠ [] ∧
      splitOffset? false literal shared = some 2 ∧ splitOffset? true literal shared = some 6 ∧
      IsLeast {offset | OccursAtByte literal shared offset} 2 ∧
      IsGreatest {offset | OccursAtByte literal shared offset} 6 ∧
      splitOffset? true literal cut = some 3 ∧ IsGreatest (cutSizes literal cut) 4 := by
  intro literal shared cut
  have hliteral : literal ≠ [] := by decide
  have hfirst : splitOffset? false literal shared = some 2 := by decide
  have hlast : splitOffset? true literal shared = some 6 := by decide
  have hcut : splitOffset? true literal cut = some 3 := by decide
  have hoccurs : OccursAtByte literal shared 2 := by
    show _ <+: _
    decide
  have hnone : ∀ offset, ¬ OccursAtByte literal cut offset := fun offset hoffset =>
    absurd ((nonempty_occursAtByte_iff hliteral).1 ⟨offset, hoffset⟩) (by decide)
  obtain ⟨first, last, hfirst', hlast', hleast, hgreatest⟩ :=
    (splitOffset?_at_occurrence_or_cut hliteral shared).1 ⟨2, hoccurs⟩
  obtain rfl := Option.some.inj (hfirst.symm.trans hfirst')
  obtain rfl := Option.some.inj (hlast.symm.trans hlast')
  obtain ⟨size, hsize, hsum⟩ :=
    (((splitOffset?_at_occurrence_or_cut hliteral cut).2.1 hnone).2.1 true 3).1 hcut
  have hlength : cut.byteLength = 7 := by decide
  obtain rfl : size = 4 := by omega
  exact ⟨hliteral, hfirst, hlast, hleast, hgreatest, hcut, hsize⟩

end Text

end EventFinder
