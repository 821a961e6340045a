import EventFinder.Text

/-!
# Boundary search

A capture ends where the literal that follows it begins. `boundary` finds that place and returns the
parts of the text before and after it: at the first or at the last occurrence of the literal, and,
where the literal does not occur, right before the longest beginning of it that the text ends with,
so that a text cut off in the middle of a separator still splits there.

The two parts together are always the text (`boundary_append`), so no search loses a character.
-/

set_option autoImplicit false

namespace EventFinder

namespace Text

/-- The parts of the text before and from the first occurrence of `literal`. -/
def firstOccurrence (literal : Text) : Text → Option (Text × Text)
  | [] => if literal.isEmpty then some ([], []) else none
  | c :: text =>
    if literal.isPrefixOf (c :: text) then some ([], c :: text)
    else (firstOccurrence literal text).map (consBefore c)

/-- The parts of the text before and from the last occurrence of `literal`. -/
def lastOccurrence (literal : Text) : Text → Option (Text × Text)
  | [] => if literal.isEmpty then some ([], []) else none
  | c :: text =>
    match lastOccurrence literal text with
    | some parts => some (consBefore c parts)
    | none => if literal.isPrefixOf (c :: text) then some ([], c :: text) else none

/-- The parts of the text before and from the longest end of it that is a beginning of `literal`,
neither empty nor all of it. -/
def truncatedOccurrence (literal : Text) : Text → Option (Text × Text)
  | [] => none
  | c :: text =>
    if (c :: text).isPrefixOf literal && (c :: text).length < literal.length then
      some ([], c :: text)
    else (truncatedOccurrence literal text).map (consBefore c)

/-- Where a capture ends that `literal` follows: at the last occurrence of the literal if the
capture is greedy, else at the first, and before a truncated one if there is none. -/
def boundary (greedy : Bool) (literal text : Text) : Option (Text × Text) :=
  (if greedy then lastOccurrence literal text else firstOccurrence literal text).or
    (truncatedOccurrence literal text)

/-- The parts before and from a first occurrence are the text. -/
theorem firstOccurrence_append {literal text before rest : Text}
    (h : firstOccurrence literal text = some (before, rest)) : before ++ rest = text := by
  induction text generalizing before with
  | nil => simp_all [firstOccurrence]
  | cons c text ih =>
    unfold firstOccurrence at h
    split at h
    · simp_all
    · obtain ⟨⟨b, r⟩, hparts, heq⟩ := Option.map_eq_some_iff.1 h
      simp only [consBefore, Prod.mk.injEq] at heq
      obtain ⟨rfl, rfl⟩ := heq
      simp [ih hparts]

/-- The parts before and from a last occurrence are the text. -/
theorem lastOccurrence_append {literal text before rest : Text}
    (h : lastOccurrence literal text = some (before, rest)) : before ++ rest = text := by
  induction text generalizing before with
  | nil => simp_all [lastOccurrence]
  | cons c text ih =>
    unfold lastOccurrence at h
    split at h
    · rename_i parts hparts
      obtain ⟨b, r⟩ := parts
      simp only [consBefore, Option.some.injEq, Prod.mk.injEq] at h
      obtain ⟨rfl, rfl⟩ := h
      simp [ih hparts]
    · split at h <;> simp_all

/-- The parts before and from a truncated occurrence are the text. -/
theorem truncatedOccurrence_append {literal text before rest : Text}
    (h : truncatedOccurrence literal text = some (before, rest)) : before ++ rest = text := by
  induction text generalizing before with
  | nil => simp [truncatedOccurrence] at h
  | cons c text ih =>
    unfold truncatedOccurrence at h
    split at h
    · simp_all
    · obtain ⟨⟨b, r⟩, hparts, heq⟩ := Option.map_eq_some_iff.1 h
      simp only [consBefore, Prod.mk.injEq] at heq
      obtain ⟨rfl, rfl⟩ := heq
      simp [ih hparts]

/-- The parts before and after a boundary are the text. -/
theorem boundary_append {greedy : Bool} {literal text before rest : Text}
    (h : boundary greedy literal text = some (before, rest)) : before ++ rest = text := by
  unfold boundary at h
  rcases Option.or_eq_some_iff.1 h with h | ⟨_, h⟩
  · split at h
    · exact lastOccurrence_append h
    · exact firstOccurrence_append h
  · exact truncatedOccurrence_append h

end Text

end EventFinder
