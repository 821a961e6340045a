import EventFinder.Location.Capture
import EventFinder.Proofs.Pattern.TokenLists
import EventFinder.Proofs.Text.Occurrence

/-!
# Filled patterns

A filled pattern is the tokens of a pattern with a text for every placeholder. Its text is a
location, and its captures are what reading the location is meant to find.

`KeepsBoundaries` says that every placeholder directly in front of a literal keeps the boundary
rule in the text that the filled pattern stands in. `capture_append` is the step on which the
reading of whole locations rests: as long as the boundaries are kept, the matcher goes through a
filled pattern that does not end inside a capture exactly as it was filled.
-/

set_option autoImplicit false

namespace EventFinder

/-- A token with the text that it stands for in one location. -/
inductive FilledToken where
  /-- Text of the pattern itself. -/
  | literal (text : Text)
  /-- A placeholder with its text. -/
  | field (placeholder : Placeholder) (value : Text)
  deriving DecidableEq

namespace FilledToken

/-- The token without the text of its placeholder. -/
def token : FilledToken → Token
  | literal text => .literal text
  | field placeholder _ => .field placeholder

/-- The text that the token becomes. -/
def text : FilledToken → Text
  | literal text => text
  | field _ value => value

/-- The capture that the token stands for, if it is a placeholder. -/
def capture? : FilledToken → Option Capture
  | literal _ => none
  | field placeholder value => some (placeholder, value)

/-- A filled literal is the literal. -/
@[simp] theorem token_literal (text : Text) : (literal text).token = .literal text :=
  rfl

/-- A filled placeholder is the placeholder. -/
@[simp] theorem token_field (p : Placeholder) (value : Text) : (field p value).token = .field p :=
  rfl

/-- A literal captures nothing. -/
@[simp] theorem capture?_literal (text : Text) : (literal text).capture? = none :=
  rfl

/-- A placeholder captures its text. -/
@[simp] theorem capture?_field (p : Placeholder) (value : Text) :
    (field p value).capture? = some (p, value) :=
  rfl

/-- Only a literal fills a literal, and only with its own text. -/
theorem token_eq_literal {filled : FilledToken} {text : Text} :
    filled.token = .literal text ↔ filled = literal text := by
  cases filled <;> simp

end FilledToken

/-- The text of a filled pattern. -/
def filledText (filled : List FilledToken) : Text :=
  filled.flatMap FilledToken.text

/-- Without tokens there is no text. -/
@[simp] theorem filledText_nil : filledText [] = [] :=
  rfl

/-- A literal stands in the text as it is. -/
@[simp] theorem filledText_cons_literal (literal : Text) (filled : List FilledToken) :
    filledText (.literal literal :: filled) = literal ++ filledText filled :=
  rfl

/-- A placeholder stands in the text as its value. -/
@[simp] theorem filledText_cons_field (p : Placeholder) (value : Text)
    (filled : List FilledToken) :
    filledText (.field p value :: filled) = value ++ filledText filled :=
  rfl

/-- The text of two filled patterns, one after the other, is that of the first and then of the
second. -/
@[simp] theorem filledText_append (first second : List FilledToken) :
    filledText (first ++ second) = filledText first ++ filledText second :=
  List.flatMap_append

/-- The slashes of a location are those of its literals and those of its captures. -/
theorem count_filledText (filled : List FilledToken) :
    (filledText filled).count '/' =
      (literalText (filled.map FilledToken.token)).count '/' +
        ((filled.filterMap FilledToken.capture?).flatMap Prod.snd).count '/' := by
  induction filled with
  | nil => rfl
  | cons first filled ih =>
    cases first with
    | literal text =>
      have hliteral : literalText (.literal text :: filled.map FilledToken.token) =
          text ++ literalText (filled.map FilledToken.token) := rfl
      simp only [filledText_cons_literal, List.count_append, ih, List.map_cons,
        FilledToken.token_literal, hliteral, List.filterMap_cons, FilledToken.capture?_literal]
      omega
    | field placeholder value =>
      have hfield : literalText (.field placeholder :: filled.map FilledToken.token) =
          literalText (filled.map FilledToken.token) := rfl
      simp only [filledText_cons_field, List.count_append, ih, List.map_cons,
        FilledToken.token_field, hfield, List.filterMap_cons, FilledToken.capture?_field,
        List.flatMap_cons]
      omega

/-- Every placeholder directly in front of a literal keeps the boundary rule in the text of the
filled pattern with `rest` behind it. -/
def KeepsBoundaries (filled : List FilledToken) (rest : Text) : Prop :=
  ∀ before placeholder value literal after,
    filled = before ++ .field placeholder value :: .literal literal :: after →
      Text.BoundaryRule placeholder.isGreedy literal value (literal ++ filledText after ++ rest)

/-! ## Boundaries token by token -/

/-- Without tokens there is no boundary to keep. -/
@[simp] theorem keepsBoundaries_nil (rest : Text) : KeepsBoundaries [] rest := by
  intro before p value literal after heq
  simp at heq

/-- Behind the first token the boundaries are kept as before. -/
theorem KeepsBoundaries.tail {token : FilledToken} {filled : List FilledToken} {rest : Text}
    (h : KeepsBoundaries (token :: filled) rest) : KeepsBoundaries filled rest := by
  rintro before p value literal after rfl
  exact h (token :: before) p value literal after rfl

/-- A literal in front adds no boundary. -/
theorem keepsBoundaries_cons_literal {literal : Text} {filled : List FilledToken} {rest : Text} :
    KeepsBoundaries (.literal literal :: filled) rest ↔ KeepsBoundaries filled rest := by
  constructor
  · exact KeepsBoundaries.tail
  · rintro h (_ | ⟨first, before⟩) p value other after heq
    · simp at heq
    · simp only [List.cons_append, List.cons.injEq] at heq
      exact h before p value other after heq.2

/-- A placeholder with nothing behind it has no boundary. -/
@[simp] theorem keepsBoundaries_singleton_field (p : Placeholder) (value rest : Text) :
    KeepsBoundaries [.field p value] rest := by
  intro before q other literal after heq
  have hlength := congrArg List.length heq
  simp only [List.length_append, List.length_cons, List.length_nil] at hlength
  omega

/-- A placeholder in front of a literal adds the boundary between them. -/
theorem keepsBoundaries_cons_field {p : Placeholder} {value literal : Text}
    {filled : List FilledToken} {rest : Text} :
    KeepsBoundaries (.field p value :: .literal literal :: filled) rest ↔
      Text.BoundaryRule p.isGreedy literal value (literal ++ filledText filled ++ rest) ∧
        KeepsBoundaries filled rest := by
  constructor
  · intro h
    exact ⟨h [] p value literal filled rfl, h.tail.tail⟩
  · rintro ⟨hrule, h⟩ (_ | ⟨first, before⟩) q other text after heq
    · simp only [List.nil_append, List.cons.injEq, FilledToken.field.injEq,
        FilledToken.literal.injEq] at heq
      obtain ⟨⟨rfl, rfl⟩, rfl, rfl⟩ := heq
      exact hrule
    · simp only [List.cons_append, List.cons.injEq] at heq
      exact keepsBoundaries_cons_literal.2 h before q other text after heq.2

/-- A placeholder in front of another one adds no boundary. -/
theorem keepsBoundaries_cons_field_field {p q : Placeholder} {value other : Text}
    {filled : List FilledToken} {rest : Text} :
    KeepsBoundaries (.field p value :: .field q other :: filled) rest ↔
      KeepsBoundaries (.field q other :: filled) rest := by
  constructor
  · exact KeepsBoundaries.tail
  · rintro h (_ | ⟨first, before⟩) r text literal after heq
    · simp at heq
    · simp only [List.cons_append, List.cons.injEq] at heq
      exact h before r text literal after heq.2

/-- The first part of a filled pattern keeps its boundaries in front of the second one. -/
theorem KeepsBoundaries.of_append {first second : List FilledToken} {rest : Text}
    (h : KeepsBoundaries (first ++ second) rest) :
    KeepsBoundaries first (filledText second ++ rest) := by
  rintro before p value literal after rfl
  have := h before p value literal (after ++ second) (by simp)
  simpa [List.append_assoc] using this

/-- The boundaries of a filled pattern can be checked from its first token on. -/
instance decidableKeepsBoundaries :
    ∀ (filled : List FilledToken) (rest : Text), Decidable (KeepsBoundaries filled rest)
  | [], rest => .isTrue (keepsBoundaries_nil rest)
  | .literal _ :: filled, rest =>
    have := decidableKeepsBoundaries filled rest
    decidable_of_iff (KeepsBoundaries filled rest) keepsBoundaries_cons_literal.symm
  | [.field p value], rest => .isTrue (keepsBoundaries_singleton_field p value rest)
  | .field _ _ :: .literal _ :: filled, rest =>
    have := decidableKeepsBoundaries filled rest
    decidable_of_iff _ keepsBoundaries_cons_field.symm
  | .field _ _ :: .field q value :: filled, rest =>
    have := decidableKeepsBoundaries (.field q value :: filled) rest
    decidable_of_iff _ keepsBoundaries_cons_field_field.symm

/-! ## Reading a filled pattern -/

/-- A literal that the location begins with is matched and leaves the rest. -/
theorem capture_literal (literal : Text) (tail : List Token) (rest : Text) :
    capture (.literal literal :: tail) (literal ++ rest) = capture tail rest := by
  simp only [capture, List.isPrefixOf?_eq_some_iff_append_eq.2 rfl]

/-- A placeholder in front of a literal captures the text up to the boundary. -/
theorem capture_field_of_boundary {p : Placeholder} {literal value rest text : Text}
    {tail : List Token} (h : Text.boundary p.isGreedy literal text = some (value, rest)) :
    capture (.field p :: .literal literal :: tail) text =
      (capture (.literal literal :: tail) rest).map ((p, value) :: ·) := by
  have hnext : nextLiteral? (.literal literal :: tail) = some (literal, tail) := rfl
  rw [capture.eq_4, hnext]
  simp only [h]

/-- The last placeholder captures all that is left. -/
theorem capture_last (p : Placeholder) (text : Text) : capture [.field p] text = .ok [(p, text)] :=
  rfl

/-- What the matcher does on a filled pattern that does not end with a placeholder, with other
tokens and text behind it. -/
theorem capture_append {filled : List FilledToken} {tail : List Token} {rest : Text}
    {captures : List Capture} (hapart : FieldsApart (filled.map FilledToken.token))
    (hend : ∀ before p value, filled ≠ before ++ [.field p value])
    (hkeeps : KeepsBoundaries filled rest) (h : capture tail rest = .ok captures) :
    capture (filled.map FilledToken.token ++ tail) (filledText filled ++ rest) =
      .ok (filled.filterMap FilledToken.capture? ++ captures) := by
  induction filled with
  | nil => exact h
  | cons token filled ih =>
    have hend' : ∀ before p value, filled ≠ before ++ [.field p value] := by
      rintro before p value rfl
      exact hend (token :: before) p value rfl
    cases token with
    | literal literal =>
      have hrest := ih (List.IsChain.tail hapart) hend' (keepsBoundaries_cons_literal.1 hkeeps)
      simp only [List.map_cons, List.cons_append, FilledToken.token_literal,
        filledText_cons_literal, List.append_assoc, capture_literal]
      simpa [List.filterMap_cons] using hrest
    | field p value =>
      -- The next token is a literal, whose start is the boundary of the placeholder.
      obtain _ | ⟨next, filled⟩ := filled
      · exact absurd rfl (hend [] p value)
      have hnext : next.token.isField = false := by
        simpa [Token.isField] using (List.isChain_cons_cons.1 hapart).1
      cases next with
      | field q other => simp [Token.isField] at hnext
      | literal literal =>
        obtain ⟨hrule, _⟩ := keepsBoundaries_cons_field.1 hkeeps
        have hrest := ih (List.IsChain.tail hapart) hend' hkeeps.tail
        have hboundary := Text.boundary_of_rule
          ((List.prefix_append literal (filledText filled)).trans (List.prefix_append _ rest)) hrule
        simp only [List.map_cons, List.cons_append, FilledToken.token_field,
          FilledToken.token_literal, filledText_cons_field, filledText_cons_literal,
          List.append_assoc] at hrest hboundary ⊢
        rw [capture_field_of_boundary hboundary, hrest]
        simp [List.filterMap_cons]

end EventFinder
