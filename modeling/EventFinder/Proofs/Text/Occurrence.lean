import Mathlib.Data.List.Infix
import EventFinder.Text.Search

/-!
# Occurrences of a literal

`OccursAt` says where a literal stands in a text, and the search functions are characterized by it:
the first occurrence has no other one before it, the last occurrence none behind it, and a cut is
the longest end of the text that the literal could go on from.

`BoundaryRule` is the condition under which a capture can be found again once the literal that
follows it has been written behind it. `boundary_of_rule` and `boundary_eq_some` say that the
boundary search finds exactly the captures that keep the rule, and, only where the literal does not
occur at all, the longest cut of it (`LongestCut`).
-/

set_option autoImplicit false

namespace EventFinder

namespace Text

/-- The literal stands in the text behind its first `offset` characters. -/
def OccursAt (literal text : Text) (offset : Nat) : Prop :=
  offset ≤ text.length ∧ literal <+: text.drop offset

/-- A beginning of the literal that is not all of it. It may be empty. -/
def ProperPrefix (cut literal : Text) : Prop :=
  cut <+: literal ∧ cut ≠ literal

/-- The text ends with a beginning of the literal, and with no longer one. -/
structure LongestCut (literal text cut : Text) : Prop where
  isSuffix : cut <:+ text
  isProper : ProperPrefix cut literal
  longest : ∀ other, other <:+ text → ProperPrefix other literal → other.length ≤ cut.length

/-- The literal behind a captured value marks the end of the capture. For the fields that take as
much as they can, `rest`, which is the text behind the value, holds the literal at its start only;
for the others the value and the literal hold no earlier one that begins inside the value. -/
def BoundaryRule (greedy : Bool) (literal value rest : Text) : Prop :=
  if greedy then ∀ offset, OccursAt literal rest offset → offset = 0
  else ∀ offset < value.length, ¬ OccursAt literal (value ++ literal) offset

/-- Both conditions are tested. -/
instance (literal text : Text) (offset : Nat) : Decidable (OccursAt literal text offset) :=
  inferInstanceAs (Decidable (_ ∧ _))

/-- A greedy field has only the places inside the text to look at. -/
theorem boundaryRule_greedy_iff {literal value rest : Text} :
    BoundaryRule true literal value rest ↔
      ∀ offset < rest.length + 1, OccursAt literal rest offset → offset = 0 := by
  constructor
  · exact fun h offset _ => h offset
  · exact fun h offset hoccurs => h offset (Nat.lt_succ_of_le hoccurs.1) hoccurs

/-- Only the places inside the text have to be looked at. -/
instance decidableBoundaryRule (greedy : Bool) (literal value rest : Text) :
    Decidable (BoundaryRule greedy literal value rest) :=
  match greedy with
  | true => decidable_of_iff _ boundaryRule_greedy_iff.symm
  | false =>
    inferInstanceAs
      (Decidable (∀ offset < value.length, ¬ OccursAt literal (value ++ literal) offset))

/-! ## Places -/

/-- A literal occurs at the start of a text if the text begins with it. -/
theorem occursAt_zero {literal text : Text} : OccursAt literal text 0 ↔ literal <+: text := by
  simp [OccursAt]

/-- Behind the first character, places are counted from there. -/
theorem occursAt_cons_succ {literal text : Text} {c : Char} {offset : Nat} :
    OccursAt literal (c :: text) (offset + 1) ↔ OccursAt literal text offset := by
  simp [OccursAt]

/-- A literal occurs behind the first part of a text if the second part begins with it. -/
theorem occursAt_append_length {literal before rest : Text} :
    OccursAt literal (before ++ rest) before.length ↔ literal <+: rest := by
  simp [OccursAt]

/-- An occurrence that ends inside the first part of a text does not depend on the rest. -/
theorem occursAt_append_left {literal text rest : Text} {offset : Nat}
    (h : offset + literal.length ≤ text.length) :
    OccursAt literal (text ++ rest) offset ↔ OccursAt literal text offset := by
  have hdrop : (text ++ rest).drop offset = text.drop offset ++ rest :=
    List.drop_append_of_le_length (by omega)
  simp only [OccursAt, hdrop, List.length_append]
  constructor
  · rintro ⟨-, hbegins⟩
    refine ⟨by omega, ?_⟩
    exact List.prefix_of_prefix_length_le hbegins (List.prefix_append _ _)
      (by simp only [List.length_drop]; omega)
  · rintro ⟨hle, hbegins⟩
    exact ⟨by omega, hbegins.trans (List.prefix_append _ _)⟩

/-- A literal that occurs in a text occurs at some place. -/
theorem isInfix_iff_exists_occursAt {literal text : Text} :
    literal <:+: text ↔ ∃ offset, OccursAt literal text offset := by
  constructor
  · rintro ⟨before, after, rfl⟩
    refine ⟨before.length, ?_⟩
    rw [List.append_assoc, occursAt_append_length]
    exact List.prefix_append _ _
  · rintro ⟨offset, -, hbegins⟩
    exact hbegins.isInfix.trans (List.drop_suffix offset text).isInfix

/-- Searching a text for another one finds it exactly if it is a part of the text. -/
theorem holds_iff_isInfix {needle text : Text} : holds needle text = true ↔ needle <:+: text := by
  induction text with
  | nil => simp [holds]
  | cons c text ih => simp [holds, ih, List.infix_cons_iff]

/-! ## The first and the last occurrence -/

/-- No occurrence is found exactly if the literal does not occur. -/
theorem firstOccurrence_eq_none_iff {literal text : Text} :
    firstOccurrence literal text = none ↔ ¬ literal <:+: text := by
  induction text with
  | nil => cases literal <;> simp [firstOccurrence]
  | cons c text ih =>
    unfold firstOccurrence
    split
    · rename_i h
      simpa using (List.isPrefixOf_iff_prefix.1 h).isInfix
    · rename_i h
      rw [Option.map_eq_none_iff, ih, List.infix_cons_iff, ← List.isPrefixOf_iff_prefix]
      simp [h]

/-- No occurrence is found from the end either exactly if the literal does not occur. -/
theorem lastOccurrence_eq_none_iff {literal text : Text} :
    lastOccurrence literal text = none ↔ ¬ literal <:+: text := by
  induction text with
  | nil => cases literal <;> simp [lastOccurrence]
  | cons c text ih =>
    rw [List.infix_cons_iff, ← List.isPrefixOf_iff_prefix]
    unfold lastOccurrence
    cases h : lastOccurrence literal text with
    | some parts => simp_all
    | none => simp_all

/-- A character in front of the parts of a text is the first of the part before. -/
theorem map_consBefore_eq_some_iff {parts : Option (Text × Text)} {c d : Char}
    {before rest : Text} :
    parts.map (consBefore c) = some (d :: before, rest) ↔ c = d ∧ parts = some (before, rest) := by
  cases parts <;> simp [consBefore, Prod.ext_iff, and_assoc]

/-- The first occurrence is the one that no other one begins before. -/
theorem firstOccurrence_eq_some_iff {literal text before rest : Text} :
    firstOccurrence literal text = some (before, rest) ↔
      text = before ++ rest ∧ literal <+: rest ∧
        ∀ offset < before.length, ¬ OccursAt literal text offset := by
  induction text generalizing before with
  | nil =>
    cases literal with
    | nil => cases before <;> simp [firstOccurrence, eq_comm]
    | cons c literal =>
      simp only [firstOccurrence, List.isEmpty_cons, Bool.false_eq_true, if_false, reduceCtorEq,
        List.nil_eq_append_iff, false_iff]
      rintro ⟨⟨-, rfl⟩, h, -⟩
      simp at h
  | cons c text ih =>
    unfold firstOccurrence
    split
    · rename_i hstart
      rw [List.isPrefixOf_iff_prefix] at hstart
      cases before with
      | nil =>
        simp only [Option.some.injEq, Prod.mk.injEq, true_and, List.nil_append, List.length_nil,
          Nat.not_lt_zero, IsEmpty.forall_iff, implies_true, and_true]
        exact ⟨fun h => ⟨h, h ▸ hstart⟩, And.left⟩
      | cons d before =>
        simp only [Option.some.injEq, Prod.mk.injEq, List.nil_eq, reduceCtorEq, false_and,
          false_iff]
        rintro ⟨-, -, hnone⟩
        exact hnone 0 (by simp) (occursAt_zero.2 hstart)
    · rename_i hstart
      rw [List.isPrefixOf_iff_prefix] at hstart
      cases before with
      | nil =>
        simp only [Option.map_eq_some_iff, consBefore, Prod.mk.injEq, reduceCtorEq, false_and,
          and_false, exists_false, List.nil_append, false_iff]
        rintro ⟨rfl, hbegins, -⟩
        exact hstart hbegins
      | cons d before =>
        rw [map_consBefore_eq_some_iff, ih]
        constructor
        · rintro ⟨rfl, rfl, hbegins, hnone⟩
          refine ⟨rfl, hbegins, ?_⟩
          rintro (_ | offset) hlt
          · rwa [occursAt_zero]
          · rw [occursAt_cons_succ]
            exact hnone offset (by simpa using hlt)
        · rintro ⟨htext, hbegins, hnone⟩
          simp only [List.cons_append, List.cons.injEq] at htext
          obtain ⟨rfl, rfl⟩ := htext
          refine ⟨rfl, rfl, hbegins, fun offset hlt => ?_⟩
          rw [← occursAt_cons_succ (c := c)]
          exact hnone (offset + 1) (by simpa using hlt)

/-- The last occurrence is the one that no other one begins behind. -/
theorem lastOccurrence_eq_some_iff {literal text before rest : Text} :
    lastOccurrence literal text = some (before, rest) ↔
      text = before ++ rest ∧ literal <+: rest ∧
        ∀ offset, OccursAt literal rest offset → offset = 0 := by
  induction text generalizing before with
  | nil =>
    cases literal with
    | nil => cases before <;> cases rest <;> simp [lastOccurrence, OccursAt]
    | cons c literal =>
      simp only [lastOccurrence, List.isEmpty_cons, Bool.false_eq_true, if_false, reduceCtorEq,
        List.nil_eq_append_iff, false_iff]
      rintro ⟨⟨-, rfl⟩, h, -⟩
      simp at h
  | cons c text ih =>
    unfold lastOccurrence
    cases hlast : lastOccurrence literal text with
    | some parts =>
      -- The literal occurs behind the first character, so it cannot begin there for the last time.
      have hin : literal <:+: text := by
        by_contra h
        rw [lastOccurrence_eq_none_iff.2 h] at hlast
        cases hlast
      cases before with
      | nil =>
        simp only [consBefore, Option.some.injEq, Prod.mk.injEq, reduceCtorEq, false_and,
          List.nil_append, false_iff]
        rintro ⟨rfl, -, honly⟩
        obtain ⟨offset, hoffset⟩ := isInfix_iff_exists_occursAt.1 hin
        exact absurd (honly (offset + 1) (occursAt_cons_succ.2 hoffset)) (by omega)
      | cons d before =>
        show (some parts).map (consBefore c) = some (d :: before, rest) ↔ _
        rw [map_consBefore_eq_some_iff, ← hlast, ih]
        simp [and_assoc]
    | none =>
      have hout := lastOccurrence_eq_none_iff.1 hlast
      have hrest : before ≠ [] → c :: text = before ++ rest → ¬ literal <+: rest := by
        rintro hne heq hbegins
        obtain ⟨d, before, rfl⟩ := List.exists_cons_of_ne_nil hne
        simp only [List.cons_append, List.cons.injEq] at heq
        exact hout (heq.2 ▸ hbegins.isInfix.trans (List.suffix_append before rest).isInfix)
      have honly : ∀ offset, OccursAt literal (c :: text) offset → offset = 0 := by
        rintro (_ | offset) hoffset
        · rfl
        · exact absurd (isInfix_iff_exists_occursAt.2 ⟨offset, occursAt_cons_succ.1 hoffset⟩) hout
      cases before with
      | nil =>
        simp only [List.isPrefixOf_iff_prefix, Option.ite_none_right_eq_some, Option.some.injEq,
          Prod.mk.injEq, true_and, List.nil_append]
        constructor
        · rintro ⟨hbegins, rfl⟩
          exact ⟨rfl, hbegins, honly⟩
        · rintro ⟨rfl, hbegins, -⟩
          exact ⟨hbegins, rfl⟩
      | cons d before =>
        simp only [Option.ite_none_right_eq_some, Option.some.injEq, Prod.mk.injEq, List.nil_eq,
          reduceCtorEq, false_and, and_false, false_iff]
        rintro ⟨heq, hbegins, -⟩
        exact hrest (by simp) heq hbegins

/-! ## Cuts -/

/-- A proper beginning is shorter than the literal. -/
theorem ProperPrefix.length_lt {cut literal : Text} (h : ProperPrefix cut literal) :
    cut.length < literal.length :=
  lt_of_le_of_ne h.1.length_le fun heq => h.2 (h.1.eq_of_length heq)

/-- A beginning that is shorter than the literal is a proper one. -/
theorem ProperPrefix.of_length_lt {cut literal : Text} (h : cut <+: literal)
    (hlt : cut.length < literal.length) : ProperPrefix cut literal :=
  ⟨h, by rintro rfl; omega⟩

/-- The empty text is a proper beginning of every literal that is not empty. -/
theorem properPrefix_nil {literal : Text} (h : literal ≠ []) : ProperPrefix [] literal :=
  ⟨List.nil_prefix, h.symm⟩

/-- A beginning that misses only the last character of the literal is the longest cut. -/
theorem LongestCut.of_length {literal text cut : Text} (hends : cut <:+ text)
    (hbegins : cut <+: literal) (hlength : literal.length = cut.length + 1) :
    LongestCut literal text cut := by
  refine ⟨hends, .of_length_lt hbegins (by omega), fun other _ hproper => ?_⟩
  have := hproper.length_lt
  omega

/-- A text has one longest cut at most. -/
theorem LongestCut.eq {literal text cut other : Text} (h : LongestCut literal text cut)
    (h' : LongestCut literal text other) : cut = other := by
  have hlength : cut.length = other.length :=
    le_antisymm (h'.longest _ h.isSuffix h.isProper) (h.longest _ h'.isSuffix h'.isProper)
  exact (List.suffix_of_suffix_length_le h.isSuffix h'.isSuffix hlength.le).eq_of_length hlength

/-- The search for a truncated literal stops at the longest cut, if that is not empty. -/
theorem truncatedOccurrence_eq_some_iff {literal text before rest : Text} :
    truncatedOccurrence literal text = some (before, rest) ↔
      text = before ++ rest ∧ rest ≠ [] ∧ LongestCut literal text rest := by
  constructor
  · intro h
    induction text generalizing before with
    | nil => simp [truncatedOccurrence] at h
    | cons c text ih =>
      unfold truncatedOccurrence at h
      split at h
      · rename_i hcut
        simp only [Option.some.injEq, Prod.mk.injEq] at h
        obtain ⟨rfl, rfl⟩ := h
        simp only [Bool.and_eq_true, List.isPrefixOf_iff_prefix, decide_eq_true_eq] at hcut
        refine ⟨rfl, by simp, List.suffix_rfl, .of_length_lt hcut.1 hcut.2, ?_⟩
        intro other hother _
        exact hother.length_le
      · rename_i hcut
        simp only [Bool.and_eq_true, List.isPrefixOf_iff_prefix, decide_eq_true_eq] at hcut
        obtain ⟨⟨b, r⟩, hparts, heq⟩ := Option.map_eq_some_iff.1 h
        simp only [consBefore, Prod.mk.injEq] at heq
        obtain ⟨rfl, rfl⟩ := heq
        obtain ⟨rfl, hne, hlongest⟩ := ih hparts
        refine ⟨rfl, hne, hlongest.isSuffix.trans (List.suffix_cons _ _), hlongest.isProper, ?_⟩
        intro other hother hproper
        rcases List.suffix_cons_iff.1 hother with rfl | hother
        · exact absurd ⟨hproper.1, hproper.length_lt⟩ hcut
        · exact hlongest.longest other hother hproper
  · rintro ⟨rfl, hne, hlongest⟩
    induction before with
    | nil =>
      obtain ⟨c, rest, rfl⟩ := List.exists_cons_of_ne_nil hne
      have hcut :
          ((c :: rest).isPrefixOf literal && (c :: rest).length < literal.length) = true := by
        simpa [List.isPrefixOf_iff_prefix] using
          ⟨hlongest.isProper.1, hlongest.isProper.length_lt⟩
      simp only [List.nil_append, truncatedOccurrence, if_pos hcut]
    | cons c before ih =>
      have hcut : ¬ ((c :: (before ++ rest)).isPrefixOf literal &&
          (c :: (before ++ rest)).length < literal.length) = true := by
        simp only [Bool.and_eq_true, List.isPrefixOf_iff_prefix, decide_eq_true_eq, not_and]
        intro hbegins hlt
        have := hlongest.longest _ List.suffix_rfl (.of_length_lt hbegins hlt)
        simp only [List.length_cons, List.length_append] at this
        omega
      have htail : LongestCut literal (before ++ rest) rest :=
        ⟨List.suffix_append _ _, hlongest.isProper, fun other hother hproper =>
          hlongest.longest other (hother.trans (List.suffix_cons _ _)) hproper⟩
      simp only [List.cons_append, truncatedOccurrence, if_neg hcut, ih htail]
      rfl

/-- The search for a truncated literal fails exactly if the longest cut is empty. -/
theorem truncatedOccurrence_eq_none_iff {literal text : Text} (hliteral : literal ≠ []) :
    truncatedOccurrence literal text = none ↔ LongestCut literal text [] := by
  constructor
  · intro h
    refine ⟨List.nil_suffix, properPrefix_nil hliteral, fun other hother hproper => ?_⟩
    induction text with
    | nil => simpa using hother
    | cons c text ih =>
      unfold truncatedOccurrence at h
      split at h
      · cases h
      · rename_i hcut
        simp only [Bool.and_eq_true, List.isPrefixOf_iff_prefix, decide_eq_true_eq] at hcut
        rcases List.suffix_cons_iff.1 hother with rfl | hother
        · exact absurd ⟨hproper.1, hproper.length_lt⟩ hcut
        · exact ih (Option.map_eq_none_iff.1 h) hother
  · intro hlongest
    cases h : truncatedOccurrence literal text with
    | none => rfl
    | some parts =>
      obtain ⟨-, hne, hother⟩ := truncatedOccurrence_eq_some_iff.1 h
      exact absurd (hother.eq hlongest) hne

/-! ## Boundaries -/

/-- A value that keeps the boundary rule is found again before its literal. -/
theorem boundary_of_rule {greedy : Bool} {literal value rest : Text} (hbegins : literal <+: rest)
    (hrule : BoundaryRule greedy literal value rest) :
    boundary greedy literal (value ++ rest) = some (value, rest) := by
  cases greedy with
  | true =>
    have h : lastOccurrence literal (value ++ rest) = some (value, rest) :=
      lastOccurrence_eq_some_iff.2 ⟨rfl, hbegins, by simpa [BoundaryRule] using hrule⟩
    simp [boundary, h]
  | false =>
    simp only [BoundaryRule, Bool.false_eq_true, if_false] at hrule
    have h : firstOccurrence literal (value ++ rest) = some (value, rest) := by
      refine firstOccurrence_eq_some_iff.2 ⟨rfl, hbegins, fun offset hlt => ?_⟩
      obtain ⟨after, rfl⟩ := hbegins
      rw [← List.append_assoc, occursAt_append_left (by simp only [List.length_append]; omega)]
      exact hrule offset hlt
    simp [boundary, h]

/-- Where no occurrence and no cut of the literal is in sight, no boundary is found. -/
theorem boundary_of_not_isInfix {greedy : Bool} {literal text : Text} (h : ¬ literal <:+: text) :
    boundary greedy literal text = truncatedOccurrence literal text := by
  cases greedy <;>
    simp [boundary, firstOccurrence_eq_none_iff.2 h, lastOccurrence_eq_none_iff.2 h]

/-- A boundary stands either before an occurrence of the literal, by the boundary rule, or, if the
literal does not occur, before the longest cut of it. -/
theorem boundary_eq_some {greedy : Bool} {literal text value rest : Text}
    (h : boundary greedy literal text = some (value, rest)) :
    text = value ++ rest ∧
      (literal <+: rest ∧ BoundaryRule greedy literal value rest ∨
        ¬ literal <:+: text ∧ rest ≠ [] ∧ LongestCut literal text rest) := by
  by_cases hin : literal <:+: text
  · cases greedy with
    | true =>
      cases hlast : lastOccurrence literal text with
      | none => exact absurd hin (lastOccurrence_eq_none_iff.1 hlast)
      | some parts =>
        simp only [boundary, if_true, hlast, Option.some_or, Option.some.injEq] at h
        obtain ⟨htext, hbegins, honly⟩ := lastOccurrence_eq_some_iff.1 (h ▸ hlast)
        exact ⟨htext, .inl ⟨hbegins, by simpa [BoundaryRule] using honly⟩⟩
    | false =>
      cases hfirst : firstOccurrence literal text with
      | none => exact absurd hin (firstOccurrence_eq_none_iff.1 hfirst)
      | some parts =>
        simp only [boundary, Bool.false_eq_true, if_false, hfirst, Option.some_or,
          Option.some.injEq] at h
        obtain ⟨rfl, hbegins, hnone⟩ := firstOccurrence_eq_some_iff.1 (h ▸ hfirst)
        refine ⟨rfl, .inl ⟨hbegins, ?_⟩⟩
        simp only [BoundaryRule, Bool.false_eq_true, if_false]
        intro offset hlt
        obtain ⟨after, rfl⟩ := hbegins
        have := hnone offset hlt
        rwa [← List.append_assoc,
          occursAt_append_left (by simp only [List.length_append]; omega)] at this
  · rw [boundary_of_not_isInfix hin] at h
    obtain ⟨htext, hne, hlongest⟩ := truncatedOccurrence_eq_some_iff.1 h
    exact ⟨htext, .inr ⟨hin, hne, hlongest⟩⟩

/-- No boundary is found exactly if the literal does not occur and the longest cut is empty. -/
theorem boundary_eq_none_iff {greedy : Bool} {literal text : Text} (hliteral : literal ≠ []) :
    boundary greedy literal text = none ↔ ¬ literal <:+: text ∧ LongestCut literal text [] := by
  constructor
  · intro h
    have hin : ¬ literal <:+: text := by
      have hfound := (Option.or_eq_none_iff.1 h).1
      cases greedy with
      | true => exact lastOccurrence_eq_none_iff.1 hfound
      | false => exact firstOccurrence_eq_none_iff.1 hfound
    rw [boundary_of_not_isInfix hin] at h
    exact ⟨hin, (truncatedOccurrence_eq_none_iff hliteral).1 h⟩
  · rintro ⟨hin, hlongest⟩
    rw [boundary_of_not_isInfix hin]
    exact (truncatedOccurrence_eq_none_iff hliteral).2 hlongest

end Text

end EventFinder
