import EventFinder.Proofs.Location.Accounting

/-!
# Why a location does not fit

A match that fails has gone through some of the tokens, with texts for their placeholders, and the
error tells what is wrong with the text that is left for the other ones (`Mismatch`). Every step of
the matcher puts one filled token in front of what the error is about (`MismatchBehind.cons`), also
the steps that end a capture before a truncated separator or give all text to it, so that the parts
always make up the location (`mismatchBehind_of_capture`).

Text can be left behind the whole pattern only if the pattern ends with a literal: a placeholder at
the end takes everything (`endsLiterally_of_trailingText`).
-/

set_option autoImplicit false

namespace EventFinder

/-- What an error says about the tokens that are left and the text that is left for them. -/
inductive Mismatch : List Token → Text → MatchError → Prop where
  /-- The literal that comes next is missing, and the location may not stop in front of its end. -/
  | literal {expected remaining : Text} {tail : List Token} (hmissing : ¬ expected <+: remaining)
      (hrequired : ¬ (tail ≠ [] ∧ (∀ token ∈ tail, token.isField = true) ∧
        remaining <+: expected)) :
      Mismatch (.literal expected :: tail) remaining (.literalMismatch expected remaining)
  /-- The literal that ends the capture of the placeholder does not occur, and neither does the text
  end with a beginning of it. One more literal has to follow behind it. -/
  | separator {placeholder : Placeholder} {between behind : List Token} {literal remaining : Text}
      (hbetween : ∀ token ∈ between, token.isField = true)
      (hbehind : ∃ other, Token.literal other ∈ behind) (hmissing : ¬ literal <:+: remaining)
      (hcut : ∀ cut, cut ≠ [] → cut <+: literal → ¬ cut <:+ remaining) :
      Mismatch (.field placeholder :: (between ++ .literal literal :: behind)) remaining
        (.separatorNotFound placeholder literal)
  /-- There is text left for no token. -/
  | trailing {remaining : Text} (hremaining : remaining ≠ []) :
      Mismatch [] remaining (.trailingText remaining)

/-- The error is about what is left of the tokens and of the location behind some tokens that have
been filled. -/
def MismatchBehind (tokens : List Token) (location : Text) (error : MatchError) : Prop :=
  ∃ (filled : List FilledToken) (rest : List Token) (remaining : Text),
    tokens = filled.map FilledToken.token ++ rest ∧ location = filledText filled ++ remaining ∧
      Mismatch rest remaining error

/-- There is no placeholder at the end of the tokens. -/
def EndsLiterally (tokens : List Token) : Prop :=
  tokens = [] ∨ ∃ before literal, tokens = before ++ [.literal literal]

/-- Tokens that end with a literal do not end with a placeholder. -/
theorem EndsLiterally.ne_append_field {tokens before : List Token} (h : EndsLiterally tokens)
    (placeholder : Placeholder) : tokens ≠ before ++ [.field placeholder] := by
  rintro rfl
  obtain hnil | ⟨others, literal, heq⟩ := h
  · simp at hnil
  · simpa using (List.append_inj' heq rfl).2

/-- One token more in front does not change how the tokens end. -/
theorem EndsLiterally.cons {tail : List Token} (first : Token) (hne : tail ≠ [])
    (h : EndsLiterally tail) : EndsLiterally (first :: tail) := by
  obtain ⟨before, literal, rfl⟩ := h.resolve_left hne
  exact .inr ⟨first :: before, literal, rfl⟩

/-! ## One more token in front -/

/-- What is wrong at once is wrong behind no tokens. -/
theorem Mismatch.behind_nil {tokens : List Token} {location : Text} {error : MatchError}
    (h : Mismatch tokens location error) : MismatchBehind tokens location error :=
  ⟨[], tokens, location, rfl, rfl, h⟩

/-- What is wrong behind some tokens is wrong behind one more of them. -/
theorem MismatchBehind.cons {tokens : List Token} {location : Text} {error : MatchError}
    (h : MismatchBehind tokens location error) (first : FilledToken) :
    MismatchBehind (first.token :: tokens) (first.text ++ location) error := by
  obtain ⟨filled, rest, remaining, rfl, rfl, hmismatch⟩ := h
  refine ⟨first :: filled, rest, remaining, rfl, ?_, hmismatch⟩
  rw [← List.append_assoc]
  rfl

/-! ## Literals that are missing -/

/-- Between a place and the literal that comes next there are only placeholders. -/
theorem nextLiteral?_eq_some {tokens behind : List Token} {literal : Text}
    (h : nextLiteral? tokens = some (literal, behind)) :
    ∃ between, tokens = between ++ .literal literal :: behind ∧
      ∀ token ∈ between, token.isField = true := by
  fun_induction nextLiteral? tokens with
  | case1 => cases h
  | case2 =>
    cases h
    exact ⟨[], rfl, by simp⟩
  | case3 placeholder tail ih =>
    obtain ⟨between, rfl, hbetween⟩ := ih h
    exact ⟨.field placeholder :: between, rfl, List.forall_mem_cons.2 ⟨rfl, hbetween⟩⟩

/-- Tokens that are not all placeholders have a literal among them. -/
theorem exists_literal_of_not_all_isField {tokens : List Token}
    (h : ¬ tokens.all Token.isField = true) : ∃ other, Token.literal other ∈ tokens := by
  simp only [List.all_eq_true, not_forall] at h
  obtain ⟨token, hmem, hfield⟩ := h
  cases token with
  | literal other => exact ⟨other, hmem⟩
  | field placeholder => exact absurd rfl hfield

/-- Where no boundary is found, no part of the text is the literal, and no end of it is a beginning
of the literal. -/
theorem missing_of_boundary_eq_none {greedy : Bool} {literal text : Text}
    (h : Text.boundary greedy literal text = none) :
    ¬ literal <:+: text ∧ ∀ cut, cut ≠ [] → cut <+: literal → ¬ cut <:+ text := by
  have hliteral : literal ≠ [] := by
    rintro rfl
    have hfound := (Option.or_eq_none_iff.1 h).1
    cases greedy with
    | true => exact Text.lastOccurrence_eq_none_iff.1 hfound List.nil_infix
    | false => exact Text.firstOccurrence_eq_none_iff.1 hfound List.nil_infix
  obtain ⟨hmissing, hlongest⟩ := (Text.boundary_eq_none_iff hliteral).1 h
  refine ⟨hmissing, fun cut hne hbegins hends => ?_⟩
  have hproper : Text.ProperPrefix cut literal :=
    ⟨hbegins, by rintro rfl; exact hmissing hends.isInfix⟩
  have hle := hlongest.longest cut hends hproper
  exact hne (List.length_eq_zero_iff.1 (Nat.le_zero.1 hle))

/-! ## Failing matches -/

/-- Every error is about what is left of the location behind tokens that have been filled. -/
theorem mismatchBehind_of_capture {tokens : List Token} {location : Text} {error : MatchError}
    (h : capture tokens location = .error error) : MismatchBehind tokens location error := by
  fun_induction capture tokens location with
  | case1 => cases h
  | case2 remaining hne =>
    cases h
    exact (Mismatch.trailing hne).behind_nil
  | case3 literal tail remaining rest hrest ih =>
    rw [← List.isPrefixOf?_eq_some_iff_append_eq.1 hrest]
    exact (ih h).cons (.literal literal)
  | case4 => cases h
  | case5 literal tail remaining hmissing hrequired =>
    cases h
    refine (Mismatch.literal ?_ ?_).behind_nil
    · rintro ⟨rest, hrest⟩
      rw [Text.after?, List.isPrefixOf?_eq_some_iff_append_eq.2 hrest] at hmissing
      cases hmissing
    · rwa [Bool.and_eq_true, isOptionalTail_eq_true_iff, List.isPrefixOf_iff_prefix,
        and_assoc] at hrequired
  | case6 placeholder tail remaining hnext ih =>
    simpa [FilledToken.text] using (ih (map_eq_error_iff.1 h)).cons (.field placeholder remaining)
  | case7 placeholder tail remaining literal behind hnext value rest hboundary ih =>
    rw [← Text.boundary_append hboundary]
    exact (ih (map_eq_error_iff.1 h)).cons (.field placeholder value)
  | case8 placeholder tail remaining literal behind hnext hboundary hbehind ih =>
    simpa [FilledToken.text] using (ih (map_eq_error_iff.1 h)).cons (.field placeholder remaining)
  | case9 placeholder tail remaining literal behind hnext hboundary hbehind =>
    cases h
    obtain ⟨between, rfl, hbetween⟩ := nextLiteral?_eq_some hnext
    obtain ⟨hmissing, hcut⟩ := missing_of_boundary_eq_none hboundary
    exact (Mismatch.separator hbetween (exists_literal_of_not_all_isField hbehind) hmissing
      hcut).behind_nil

/-- Of an empty location no text can be left. -/
theorem capture_nil_ne_trailingText (tokens : List Token) (remaining : Text) :
    capture tokens [] ≠ .error (.trailingText remaining) := by
  intro h
  obtain ⟨filled, rest, left, -, hleft, hmismatch⟩ := mismatchBehind_of_capture h
  cases hmismatch with
  | trailing hne => exact hne (List.append_eq_nil_iff.1 hleft.symm).2

/-- Text is left behind tokens only if no placeholder stands at their end. -/
theorem endsLiterally_of_trailingText {tokens : List Token} {location remaining : Text}
    (h : capture tokens location = .error (.trailingText remaining)) : EndsLiterally tokens := by
  fun_induction capture tokens location with
  | case1 => exact .inl rfl
  | case2 => exact .inl rfl
  | case3 literal tail location rest hrest ih =>
    obtain rfl | hne := eq_or_ne tail []
    · exact .inr ⟨[], literal, rfl⟩
    · exact (ih h).cons _ hne
  | case4 => cases h
  | case5 => cases h
  | case6 placeholder tail location hnext ih =>
    exact absurd (map_eq_error_iff.1 h) (capture_nil_ne_trailingText tail remaining)
  | case7 placeholder tail location literal behind hnext value rest hboundary ih =>
    obtain ⟨between, rfl, -⟩ := nextLiteral?_eq_some hnext
    exact (ih (map_eq_error_iff.1 h)).cons _ (by simp)
  | case8 placeholder tail location literal behind hnext hboundary hbehind ih =>
    exact absurd (map_eq_error_iff.1 h) (capture_nil_ne_trailingText tail remaining)
  | case9 => cases h

namespace Pattern

/-- A match error is true: behind some tokens of the pattern and the texts that stand for them in
the location, the rest of the location is not what the error says is required of it. Text that is
left behind the pattern is an error only of patterns that do not end with a placeholder. -/
theorem mismatch_of_capture (pattern : Pattern) {location : Text} {error : MatchError}
    (h : capture pattern.tokens location = .error error) :
    (∃ (filled : List FilledToken) (rest : List Token) (remaining : Text),
      pattern.tokens = filled.map FilledToken.token ++ rest ∧
        location = filledText filled ++ remaining ∧ Mismatch rest remaining error) ∧
      ∀ remaining, error = .trailingText remaining →
        (pattern.tokens = [] ∨ ∃ before literal, pattern.tokens = before ++ [.literal literal]) ∧
          ∀ before placeholder, pattern.tokens ≠ before ++ [.field placeholder] := by
  refine ⟨mismatchBehind_of_capture h, ?_⟩
  rintro remaining rfl
  have hends := endsLiterally_of_trailingText h
  exact ⟨hends, fun before placeholder => hends.ne_append_field placeholder⟩

/-- The separator is cut off, and what is required behind it is missing. -/
theorem mismatch_of_truncated_separator :
    let pattern : Pattern := ⟨"%V%y - %P.".toList,
      [.field .venue, .field .year, .literal " - ".toList, .field .performers, .literal ['.']]⟩
    let error : MatchError := .literalMismatch " - ".toList " -".toList
    compileLenient pattern.source = .ok pattern ∧
      capture pattern.tokens "Café -".toList = .error error ∧
      ∃ (filled : List FilledToken) (rest : List Token) (remaining : Text),
        pattern.tokens = filled.map FilledToken.token ++ rest ∧
          "Café -".toList = filledText filled ++ remaining ∧ Mismatch rest remaining error := by
  intro pattern error
  have hcompile : compileLenient pattern.source = .ok pattern := by decide +kernel
  have hcapture : capture pattern.tokens "Café -".toList = .error error := by decide +kernel
  exact ⟨hcompile, hcapture, (mismatch_of_capture pattern hcapture).1⟩

end Pattern

end EventFinder
