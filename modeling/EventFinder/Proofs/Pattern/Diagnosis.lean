import EventFinder.Location.Record
import EventFinder.Proofs.Pattern.Rendering

/-!
# Why a text is no pattern

Reading a pattern fails at the first percent sign that cannot be read. The text before that sign is
a pattern of its own, and what it ends with decides, together with what follows the sign, which of
the three errors is told (`Diagnosis`, `tokenize_eq_error_iff`): first whether a placeholder stands
directly before the sign, where that is refused, then whether the text ends with the sign, and then
whether a code follows it.

Refusing adjacent placeholders takes away nothing but the texts in which there are some
(`compile_eq_ok_iff_apart`), and it never makes reading fail later (`tokenize_refused_eq_error`).
-/

set_option autoImplicit false

namespace EventFinder

/-- The placeholder that tokens end with, if they do. -/
def endField? (tokens : List Token) : Option Placeholder :=
  tokens.getLast?.bind Token.placeholder?

/-- Why a percent sign at an offset cannot be read: `last` is the placeholder directly before it, if
there is one, and `rest` is the text behind it. -/
inductive Diagnosis (adjacency : Adjacency) (last : Option Placeholder) (offset : Nat)
    (rest : Text) : PatternError → Prop where
  | adjacent {previous : Placeholder} (hrefused : adjacency = .refused)
      (hlast : last = some previous) : Diagnosis adjacency last offset rest
        (.adjacentPlaceholders previous ((placeholderMark :: rest).take 2) offset)
  | trailing (hpermitted : adjacency = .refused → last = none) (hrest : rest = []) :
      Diagnosis adjacency last offset rest (.trailingPercent offset)
  | unknown {code : Char} {tail : Text} (hpermitted : adjacency = .refused → last = none)
      (hrest : rest = code :: tail) (hcode : ∀ placeholder : Placeholder, code ≠ placeholder.code) :
      Diagnosis adjacency last offset rest (.unknownPlaceholder code offset)

/-- A diagnosis is made at the offset that the error names. -/
theorem Diagnosis.offset_eq {adjacency : Adjacency} {last : Option Placeholder} {offset : Nat}
    {rest : Text} {error : PatternError} (h : Diagnosis adjacency last offset rest error) :
    error.offset = offset := by
  cases h <;> rfl

/-- A character is no code exactly if it is not that of any placeholder. -/
theorem Placeholder.ofCode?_eq_none_iff {c : Char} :
    ofCode? c = none ↔ ∀ placeholder : Placeholder, c ≠ placeholder.code := by
  simp only [Option.eq_none_iff_forall_ne_some, ne_eq, ofCode?_eq_some_iff]

/-! ## The placeholder before a place in a pattern -/

/-- The placeholder directly behind tokens, where `previous` stands before them. -/
def fieldBehind (previous : Option Placeholder) (tokens : List Token) : Option Placeholder :=
  if tokens = [] then previous else endField? tokens

/-- Without a placeholder before it, the field behind the tokens is the one that they end with. -/
theorem fieldBehind_none (tokens : List Token) : fieldBehind none tokens = endField? tokens := by
  unfold fieldBehind
  split
  · rename_i htokens
    rw [htokens]
    rfl
  · rfl

/-- Behind a placeholder it no longer matters what stood before it. -/
@[simp] theorem fieldBehind_consField (previous : Option Placeholder) (placeholder : Placeholder)
    (tokens : List Token) :
    fieldBehind previous (.field placeholder :: tokens) =
      fieldBehind (some placeholder) tokens := by
  cases tokens with
  | nil => rfl
  | cons token tokens => simp [fieldBehind, endField?, List.getLast?_cons_cons]

/-- Behind a literal character it no longer matters what stood before it. -/
@[simp] theorem fieldBehind_consLiteral (previous : Option Placeholder) (c : Char)
    (tokens : List Token) :
    fieldBehind previous (Token.consLiteral c tokens) = fieldBehind none tokens := by
  rw [fieldBehind_none]
  rcases tokens with _ | ⟨text | placeholder, tokens⟩
  · rfl
  · cases tokens with
    | nil => rfl
    | cons token tokens =>
      simp [fieldBehind, endField?, Token.consLiteral, List.getLast?_cons_cons]
  · simp [fieldBehind, endField?, Token.consLiteral, List.getLast?_cons_cons]

/-! ## Where reading fails -/

section Reading

variable {adjacency : Adjacency}

/-- Behind a text that is read, reading fails as it fails from there. -/
theorem tokenize_append_eq_error_iff {offset : Nat} {previous : Option Placeholder}
    {before : Text} {tokens : List Token} {error : PatternError}
    (h : tokenize adjacency offset previous before = .ok tokens) (rest : Text) :
    tokenize adjacency offset previous (before ++ rest) = .error error ↔
      tokenize adjacency (offset + before.byteLength) (fieldBehind previous tokens) rest =
        .error error := by
  fun_induction tokenize adjacency offset previous before generalizing tokens with
  | case1 offset previous =>
    cases h
    rfl
  | case2 => cases h
  | case3 => cases h
  | case4 => cases h
  | case5 offset previous code tail placeholder hcode hpermitted ih =>
    obtain ⟨others, hothers, rfl⟩ := map_eq_ok_iff.1 h
    rw [List.cons_append, List.cons_append, tokenize.eq_def]
    simp only [if_true, hcode]
    rw [map_eq_error_iff, ih hothers, fieldBehind_consField]
    simp only [Text.byteLength_cons, Nat.add_assoc]
  | case6 offset previous c tail hc ih =>
    obtain ⟨others, hothers, rfl⟩ := map_eq_ok_iff.1 h
    rw [List.cons_append, tokenize_cons_of_ne hc, map_eq_error_iff, ih hothers,
      fieldBehind_consLiteral, Text.byteLength_cons, Nat.add_assoc]

/-- A percent sign that cannot be read is told with its diagnosis. -/
theorem Diagnosis.tokenize_eq_error {last : Option Placeholder} {offset : Nat} {rest : Text}
    {error : PatternError} (h : Diagnosis adjacency last offset rest error) :
    tokenize adjacency offset last (placeholderMark :: rest) = .error error := by
  rw [tokenize.eq_def]
  simp only [if_true]
  cases h with
  | adjacent hrefused hlast =>
    subst hrefused hlast
    rfl
  | trailing hpermitted hrest =>
    subst hrest
    split
    · cases hpermitted rfl
    · rfl
  | unknown hpermitted hrest hcode =>
    subst hrest
    split
    · cases hpermitted rfl
    · have hnone : Placeholder.ofCode? _ = none :=
        Option.eq_none_iff_forall_ne_some.2 fun placeholder hsome =>
          hcode placeholder (Placeholder.ofCode?_eq_some_iff.1 hsome)
      simp only [hnone]

/-- Where reading fails, the text before some percent sign is read, and the sign is not. -/
theorem exists_diagnosis {offset : Nat} {previous : Option Placeholder} {source : Text}
    {error : PatternError} (h : tokenize adjacency offset previous source = .error error) :
    ∃ before rest tokens, source = before ++ placeholderMark :: rest ∧
      tokenize adjacency offset previous before = .ok tokens ∧
      Diagnosis adjacency (fieldBehind previous tokens) (offset + before.byteLength) rest
        error := by
  fun_induction tokenize adjacency offset previous source with
  | case1 => cases h
  | case2 offset rest previous hrefused =>
    cases h
    exact ⟨[], rest, [], rfl, rfl, .adjacent hrefused rfl⟩
  | case3 offset previous hpermitted =>
    cases h
    refine ⟨[], [], [], rfl, rfl, .trailing (fun hrefused => ?_) rfl⟩
    exact Option.eq_none_iff_forall_ne_some.2 fun other => hpermitted other hrefused
  | case4 offset previous code rest hcode hpermitted =>
    cases h
    have hunknown := Placeholder.ofCode?_eq_none_iff.1 hcode
    refine ⟨[], code :: rest, [], rfl, rfl, .unknown (fun hrefused => ?_) rfl hunknown⟩
    exact Option.eq_none_iff_forall_ne_some.2 fun other => hpermitted other hrefused
  | case5 offset previous code rest placeholder hcode hpermitted ih =>
    obtain ⟨before, behind, tokens, rfl, htokens, hdiagnosis⟩ := ih (map_eq_error_iff.1 h)
    refine ⟨placeholderMark :: code :: before, behind, .field placeholder :: tokens, rfl, ?_, ?_⟩
    · rw [tokenize.eq_def]
      simp only [if_true, hcode, htokens]
      rfl
    · rw [fieldBehind_consField]
      simpa [Nat.add_assoc] using hdiagnosis
  | case6 offset previous c rest hc ih =>
    obtain ⟨before, behind, tokens, rfl, htokens, hdiagnosis⟩ := ih (map_eq_error_iff.1 h)
    refine ⟨c :: before, behind, Token.consLiteral c tokens, rfl, ?_, ?_⟩
    · rw [tokenize_cons_of_ne hc, htokens]
      rfl
    · rw [fieldBehind_consLiteral]
      simpa [Nat.add_assoc] using hdiagnosis

/-- Reading fails exactly where the text before some percent sign is read and the sign is not. -/
theorem tokenize_eq_error_iff {offset : Nat} {previous : Option Placeholder} {source : Text}
    {error : PatternError} :
    tokenize adjacency offset previous source = .error error ↔
      ∃ before rest tokens, source = before ++ placeholderMark :: rest ∧
        tokenize adjacency offset previous before = .ok tokens ∧
        Diagnosis adjacency (fieldBehind previous tokens) (offset + before.byteLength) rest
          error := by
  constructor
  · exact exists_diagnosis
  · rintro ⟨before, rest, tokens, rfl, htokens, hdiagnosis⟩
    exact (tokenize_append_eq_error_iff htokens _).2 hdiagnosis.tokenize_eq_error

/-- Nothing is reported in front of the place where the tokens start. -/
theorem le_offset_of_tokenize {offset : Nat} {previous : Option Placeholder} {source : Text}
    {error : PatternError} (h : tokenize adjacency offset previous source = .error error) :
    offset ≤ error.offset := by
  obtain ⟨before, rest, tokens, -, -, hdiagnosis⟩ := exists_diagnosis h
  rw [hdiagnosis.offset_eq]
  omega

/-- Where reading fails although placeholders may be adjacent, it fails no later if they may not. -/
theorem tokenize_refused_eq_error {offset : Nat} {permitted : Option Placeholder} {source : Text}
    {error : PatternError} (h : tokenize .allowed offset permitted source = .error error)
    (previous : Option Placeholder) :
    ∃ earlier, tokenize .refused offset previous source = .error earlier ∧
      earlier.offset ≤ error.offset := by
  fun_induction tokenize .allowed offset permitted source generalizing previous with
  | case1 => cases h
  | case2 offset rest other hrefused => cases hrefused
  | case3 offset permitted =>
    cases h
    cases previous with
    | none => exact ⟨_, (Diagnosis.trailing (fun _ => rfl) rfl).tokenize_eq_error, le_rfl⟩
    | some other => exact ⟨_, (Diagnosis.adjacent rfl rfl).tokenize_eq_error, le_rfl⟩
  | case4 offset permitted code rest hcode =>
    cases h
    cases previous with
    | none =>
      have hunknown := Placeholder.ofCode?_eq_none_iff.1 hcode
      exact ⟨_, (Diagnosis.unknown (fun _ => rfl) rfl hunknown).tokenize_eq_error, le_rfl⟩
    | some other => exact ⟨_, (Diagnosis.adjacent rfl rfl).tokenize_eq_error, le_rfl⟩
  | case5 offset permitted code rest placeholder hcode hpermitted ih =>
    have hrest := map_eq_error_iff.1 h
    cases previous with
    | none =>
      obtain ⟨earlier, hearlier, hle⟩ := ih hrest (some placeholder)
      refine ⟨earlier, ?_, hle⟩
      rw [tokenize.eq_def]
      simp only [if_true, hcode]
      exact map_eq_error_iff.2 hearlier
    | some other =>
      -- The sign is read leniently, so that the error lies behind it.
      have hle := le_offset_of_tokenize hrest
      refine ⟨_, (Diagnosis.adjacent rfl rfl).tokenize_eq_error, ?_⟩
      show offset ≤ error.offset
      omega
  | case6 offset permitted c rest hc ih =>
    obtain ⟨earlier, hearlier, hle⟩ := ih (map_eq_error_iff.1 h) none
    refine ⟨earlier, ?_, hle⟩
    rw [tokenize_cons_of_ne hc]
    exact map_eq_error_iff.2 hearlier

end Reading

/-! ## Patterns -/

namespace Pattern

/-- Strict reading accepts what lenient reading accepts without adjacent placeholders, and reads the
same. -/
theorem compile_eq_ok_iff_apart {source : Text} {pattern : Pattern} :
    compile source = .ok pattern ↔
      compileLenient source = .ok pattern ∧ FieldsApart pattern.tokens := by
  rw [compile_eq_ok_iff, compileLenient_eq_ok_iff]
  tauto

/-- A location is read by the compiled pattern, leniently. -/
theorem readLocation_of_compile {source : Text} {pattern : Pattern}
    (h : compile source = .ok pattern) (location : Text) :
    readLocation source location =
      (pattern.read .lenient location).mapError LocationError.mismatch := by
  unfold readLocation
  rw [(compile_eq_ok_iff_apart.1 h).1]
  cases hread : pattern.read .lenient location with
  | ok record => simp only [hread]; rfl
  | error e => simp only [hread]; rfl

/-- Strictly and leniently, reading fails exactly at a percent sign that cannot be read, behind a
text that is read alone, and the error is its diagnosis. A text is a pattern if it is read leniently
without adjacent placeholders. It is then read strictly as the same pattern, so that locations are
read alike by it and by its text. Where lenient reading fails, strict reading fails no later. -/
theorem errors_at_unreadable_signs (source : Text) :
    (∀ adjacency error, tokenize adjacency 0 none source = .error error ↔
      ∃ before rest tokens, source = before ++ placeholderMark :: rest ∧
        tokenize adjacency 0 none before = .ok tokens ∧
        Diagnosis adjacency (endField? tokens) before.byteLength rest error) ∧
    (validate source = .ok () ↔
      ∃ pattern, compileLenient source = .ok pattern ∧ FieldsApart pattern.tokens) ∧
    (∀ pattern, compileLenient source = .ok pattern → FieldsApart pattern.tokens →
      compile source = .ok pattern ∧
        ∀ location, readLocation source location =
          (pattern.read .lenient location).mapError LocationError.mismatch) ∧
    ∀ error, compileLenient source = .error error →
      ∃ earlier, compile source = .error earlier ∧ earlier.offset ≤ error.offset := by
  refine ⟨fun adjacency error => ?_, ?_, fun pattern hlenient hapart => ?_, fun error herror => ?_⟩
  · simp only [tokenize_eq_error_iff, fieldBehind_none, Nat.zero_add]
  · simp only [validate_eq_ok_iff, compile_eq_ok_iff_apart]
  · have hcompile : compile source = .ok pattern := compile_eq_ok_iff_apart.2 ⟨hlenient, hapart⟩
    exact ⟨hcompile, readLocation_of_compile hcompile⟩
  · obtain ⟨earlier, hearlier, hle⟩ := tokenize_refused_eq_error (map_eq_error_iff.1 herror) none
    exact ⟨earlier, map_eq_error_iff.2 hearlier, hle⟩

/-- Two errors at one letter of two bytes: strict reading stops at the second placeholder, before
the one with an unknown code. -/
theorem errors_at_unreadable_signs_of_two_texts :
    let refused := "é%y%m/%q".toList
    let accepted := "%y/é".toList
    let pattern : Pattern := ⟨accepted, [.field .year, .literal "/é".toList]⟩
    compileLenient refused = .error (.unknownPlaceholder 'q' 7) ∧
      (∃ earlier, compile refused = .error earlier ∧ earlier.offset ≤ 7) ∧
      tokenize .refused 0 none refused = .error (.adjacentPlaceholders .year "%m".toList 4) ∧
      compileLenient accepted = .ok pattern ∧ FieldsApart pattern.tokens ∧
      compile accepted = .ok pattern ∧
      readLocation accepted "2024/é".toList = .ok { year := 2024 } := by
  intro refused accepted pattern
  have hrefused : compileLenient refused = .error (.unknownPlaceholder 'q' 7) := by decide +kernel
  have haccepted : compileLenient accepted = .ok pattern := by decide +kernel
  have hapart : FieldsApart pattern.tokens := .cons_cons (.inr rfl) (.singleton _)
  have hbefore : tokenize .refused 0 none "é%y".toList =
      .ok [.literal "é".toList, .field .year] := by decide +kernel
  obtain ⟨herrors, -, -, hearlier⟩ := errors_at_unreadable_signs refused
  obtain ⟨-, -, hread, -⟩ := errors_at_unreadable_signs accepted
  obtain ⟨hcompile, hlocation⟩ := hread pattern haccepted hapart
  refine ⟨hrefused, hearlier _ hrefused, ?_, haccepted, hapart, hcompile, ?_⟩
  · exact (herrors _ _).2 ⟨_, "m/%q".toList, _, rfl, hbefore, .adjacent rfl rfl⟩
  · rw [hlocation]
    decide +kernel

end Pattern

end EventFinder
