import Mathlib.Data.List.Chain
import EventFinder.Pattern
import EventFinder.Proofs.Result

/-!
# The token lists of patterns

A token list is normal if its literals hold text, none of it a percent sign, and if no literal
directly follows another one. Reading a pattern gives a normal token list that renders to the
pattern (`tokenize_eq_ok`), and, where adjacent placeholders are refused, one without adjacent
placeholders, so that literals and placeholders alternate.
-/

set_option autoImplicit false

namespace EventFinder

/-- Literals hold text without percent signs, and no two of them are neighbours. -/
structure NormalTokens (tokens : List Token) : Prop where
  literal_ne_nil : ∀ text, Token.literal text ∈ tokens → text ≠ []
  mark_notMem : ∀ text, Token.literal text ∈ tokens → placeholderMark ∉ text
  literals_apart : tokens.IsChain fun a b => a.isField = true ∨ b.isField = true

/-- No two placeholders are neighbours. -/
def FieldsApart (tokens : List Token) : Prop :=
  tokens.IsChain fun a b => a.isField = false ∨ b.isField = false

/-- The first token, if there is one, is a literal. -/
def StartsLiterally (tokens : List Token) : Prop :=
  ∀ token ∈ tokens.head?, token.isField = false

/-- Without tokens there is no text. -/
@[simp] theorem render_nil : render [] = [] :=
  rfl

/-- The first token is rendered in front of the others. -/
@[simp] theorem render_cons (token : Token) (tokens : List Token) :
    render (token :: tokens) = token.text ++ render tokens :=
  rfl

/-! ## Slashes -/

/-- The text of the literals, without the placeholders between them. -/
def literalText (tokens : List Token) : Text :=
  tokens.flatMap fun token => if token.isField then [] else token.text

/-- No placeholder has a slash in it. -/
theorem Placeholder.count_slash_text (placeholder : Placeholder) :
    placeholder.text.count '/' = 0 := by
  cases placeholder <;> decide

/-- The slashes of a pattern are those of its literals. -/
theorem count_slash_render (tokens : List Token) :
    (render tokens).count '/' = (literalText tokens).count '/' := by
  rw [render, literalText, List.count_flatMap, List.count_flatMap]
  congr 1
  apply List.map_congr_left
  intro token _
  cases token with
  | literal text => rfl
  | field placeholder => exact placeholder.count_slash_text

/-! ## A character in front -/

/-- A character in front of tokens stands in front of their text. -/
theorem render_consLiteral (c : Char) (tokens : List Token) :
    render (Token.consLiteral c tokens) = c :: render tokens := by
  rcases tokens with _ | ⟨_ | _, tokens⟩ <;> rfl

/-- A character in front of tokens makes them start with a literal. -/
theorem startsLiterally_consLiteral (c : Char) (tokens : List Token) :
    StartsLiterally (Token.consLiteral c tokens) := by
  rcases tokens with _ | ⟨_ | _, tokens⟩ <;>
    simp [StartsLiterally, Token.consLiteral, Token.isField]

/-- A character other than the percent sign in front of a normal token list keeps it normal. -/
theorem NormalTokens.consLiteral {c : Char} {tokens : List Token} (hc : c ≠ placeholderMark)
    (h : NormalTokens tokens) : NormalTokens (Token.consLiteral c tokens) := by
  obtain ⟨hne, hmark, hapart⟩ := h
  rcases tokens with _ | ⟨text | placeholder, tokens⟩
  · refine ⟨?_, ?_, .singleton _⟩ <;> simp [Token.consLiteral, hc.symm]
  · refine ⟨?_, ?_, ?_⟩
    · simp only [Token.consLiteral, List.mem_cons, Token.literal.injEq]
      rintro other (rfl | hother)
      · simp
      · exact hne other (List.mem_cons_of_mem _ hother)
    · simp only [Token.consLiteral, List.mem_cons, Token.literal.injEq]
      rintro other (rfl | hother)
      · simp only [List.mem_cons, not_or]
        exact ⟨hc.symm, hmark text (List.mem_cons_self)⟩
      · exact hmark other (List.mem_cons_of_mem _ hother)
    · cases hapart with
      | singleton => exact .singleton _
      | cons_cons hfirst hrest => exact .cons_cons (by simpa [Token.isField] using hfirst) hrest
  · refine ⟨?_, ?_, .cons_cons (.inr rfl) hapart⟩
    · simp only [Token.consLiteral, List.mem_cons, Token.literal.injEq, reduceCtorEq, false_or]
      rintro other (rfl | hother)
      · simp
      · exact hne other (List.mem_cons_of_mem _ hother)
    · simp only [Token.consLiteral, List.mem_cons, Token.literal.injEq, reduceCtorEq, false_or]
      rintro other (rfl | hother)
      · simpa using hc.symm
      · exact hmark other (List.mem_cons_of_mem _ hother)

/-- A character in front of tokens brings no placeholders together. -/
theorem FieldsApart.consLiteral {c : Char} {tokens : List Token} (h : FieldsApart tokens) :
    FieldsApart (Token.consLiteral c tokens) := by
  unfold FieldsApart at h ⊢
  rcases tokens with _ | ⟨text | placeholder, tokens⟩
  · exact .singleton _
  · cases h with
    | singleton => exact .singleton _
    | cons_cons _ hrest => exact .cons_cons (.inl rfl) hrest
  · exact .cons_cons (.inl rfl) h

/-! ## Reading a pattern -/

/-- A placeholder in front of a normal token list keeps it normal. -/
theorem NormalTokens.consField {placeholder : Placeholder} {tokens : List Token}
    (h : NormalTokens tokens) : NormalTokens (.field placeholder :: tokens) := by
  refine ⟨?_, ?_, ?_⟩
  · simpa using h.literal_ne_nil
  · simpa using h.mark_notMem
  · cases tokens with
    | nil => exact .singleton _
    | cons token tokens => exact .cons_cons (.inl rfl) h.literals_apart

/-- A placeholder may stand in front of tokens that start with a literal. -/
theorem FieldsApart.consField {placeholder : Placeholder} {tokens : List Token}
    (h : FieldsApart tokens) (hstart : StartsLiterally tokens) :
    FieldsApart (.field placeholder :: tokens) := by
  cases tokens with
  | nil => exact .singleton _
  | cons token tokens => exact .cons_cons (.inr (hstart token (by simp))) h

/-- What is read from a pattern is normal and renders to the pattern. Where adjacent placeholders
are refused, there are none, not even with one that stands before the text that is read. -/
theorem tokenize_eq_ok {adjacency : Adjacency} {offset : Nat} {previous : Option Placeholder}
    {source : Text} {tokens : List Token}
    (h : tokenize adjacency offset previous source = .ok tokens) :
    NormalTokens tokens ∧ render tokens = source ∧
      (adjacency = .refused → FieldsApart tokens ∧ (previous.isSome → StartsLiterally tokens)) := by
  fun_induction tokenize adjacency offset previous source generalizing tokens with
  | case1 offset previous =>
    cases h
    refine ⟨⟨by simp, by simp, .nil⟩, rfl, fun _ => ⟨.nil, fun _ => by simp [StartsLiterally]⟩⟩
  | case2 => cases h
  | case3 => cases h
  | case4 => cases h
  | case5 offset previous code rest placeholder hcode hpermitted ih =>
    obtain ⟨tail, htail, rfl⟩ := map_eq_ok_iff.1 h
    obtain ⟨hnormal, hrender, hapart⟩ := ih htail
    refine ⟨hnormal.consField, ?_, fun hrefused => ?_⟩
    · rw [render_cons, hrender, Placeholder.ofCode?_eq_some_iff.1 hcode]
      rfl
    · obtain ⟨happart, hstart⟩ := hapart hrefused
      refine ⟨happart.consField (hstart rfl), fun hsome => ?_⟩
      obtain ⟨p, rfl⟩ := Option.isSome_iff_exists.1 hsome
      exact absurd rfl (hpermitted p hrefused)
  | case6 offset previous c rest hc ih =>
    obtain ⟨tail, htail, rfl⟩ := map_eq_ok_iff.1 h
    obtain ⟨hnormal, hrender, hapart⟩ := ih htail
    refine ⟨hnormal.consLiteral hc, by rw [render_consLiteral, hrender], fun hrefused => ?_⟩
    exact ⟨(hapart hrefused).1.consLiteral, fun _ => startsLiterally_consLiteral c tail⟩

/-- A compiled pattern keeps its text, which its tokens render to. They are normal, and no
placeholder directly follows another one. -/
theorem Pattern.compile_eq_ok {source : Text} {pattern : Pattern}
    (h : Pattern.compile source = .ok pattern) :
    pattern.source = source ∧ NormalTokens pattern.tokens ∧ FieldsApart pattern.tokens ∧
      render pattern.tokens = source := by
  obtain ⟨tokens, htokens, rfl⟩ := map_eq_ok_iff.1 h
  obtain ⟨hnormal, hrender, hapart⟩ := tokenize_eq_ok htokens
  exact ⟨rfl, hnormal, (hapart rfl).1, hrender⟩

/-- A text is a pattern exactly if it can be read as one. -/
theorem Pattern.validate_eq_ok_iff {source : Text} :
    validate source = .ok () ↔ ∃ pattern, compile source = .ok pattern := by
  simp [validate, compile, map_eq_ok_iff]

/-- A text that is no pattern is refused for the reason for which it cannot be read as one. -/
theorem Pattern.validate_eq_error_iff {source : Text} {e : PatternError} :
    validate source = .error e ↔ compile source = .error e := by
  rw [validate, compile, map_eq_error_iff, map_eq_error_iff]

end EventFinder
