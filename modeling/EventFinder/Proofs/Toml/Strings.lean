import Mathlib.Data.List.Infix
import EventFinder.Proofs.Text.Occurrence
import EventFinder.Toml.Lexeme
import EventFinder.Toml.Written

/-!
# Written strings are read

Whichever of the four forms a text is written in, the reader of strings gives the text back with
what stands behind the string (`string?_ofText`). Only a quote may not stand there: the reader would
take it for one more quote of a threefold form.

Between double quotes every character is written by itself or as an escape (`Escaped`), and both
readers of such strings undo one at a time. Where quotes are threefold, the readers look at three
quotes in a row, and these are the closing ones because the content has no three quotes in a row.
-/

set_option autoImplicit false

namespace EventFinder

namespace Toml

/-! ## Escapes -/

/-- How a character can stand between double quotes: by itself, as a letter behind a backslash, or
as its code. -/
inductive Escaped (c : Char) : Text → Prop
  | itself : isPrintable c = true → c ≠ '"' → c ≠ '\\' → Escaped c [c]
  | letter (name : Char) : escapeStep? name = some (some c, .plain) → isSpace name = false →
      name ≠ '\n' → Escaped c ['\\', name]
  | code (high low : Char) : hexValue? high = some (c.toNat / 16) →
      hexValue? low = some (c.toNat % 16) → Escaped c ['\\', 'u', '0', '0', high, low]

/-- A digit of a code is read back. -/
theorem hexValue?_codeDigit {n : Nat} (h : n < 16) : hexValue? (codeDigit n) = some n := by
  revert n
  decide

/-- What is no control character can stand in a string. -/
theorem isPrintable_of_not_isControl {c : Char} (h : isControl c = false) :
    isPrintable c = true := by
  simp only [isControl, Bool.or_eq_false_iff, decide_eq_false_iff_not] at h
  simp only [isPrintable, Bool.or_eq_true, Bool.and_eq_true, decide_eq_true_eq]
  omega

/-- Every character is written in one of the forms that are read. -/
theorem escaped_escape (c : Char) : Escaped c (escape c) := by
  unfold escape
  split_ifs with hquote hbackslash hb ht hn hf hr hcontrol
  · subst hquote
    exact .letter '"' rfl rfl (by decide)
  · subst hbackslash
    exact .letter '\\' rfl rfl (by decide)
  · subst hb
    exact .letter 'b' rfl rfl (by decide)
  · subst ht
    exact .letter 't' rfl rfl (by decide)
  · subst hn
    exact .letter 'n' rfl rfl (by decide)
  · subst hf
    exact .letter 'f' rfl rfl (by decide)
  · subst hr
    exact .letter 'r' rfl rfl (by decide)
  · have hsmall : c.toNat < 256 := by
      simp only [isControl, Bool.or_eq_true, decide_eq_true_eq] at hcontrol
      omega
    exact .code _ _ (hexValue?_codeDigit (by omega)) (hexValue?_codeDigit (by omega))
  · exact .itself (isPrintable_of_not_isControl (by simpa using hcontrol)) hquote hbackslash

/-- What stands for a character does not start with a quote. -/
theorem Escaped.exists_cons {c : Char} {code : Text} (h : Escaped c code) :
    ∃ first more, code = first :: more ∧ isPrintable first = true ∧ first ≠ '"' := by
  cases h with
  | itself hprintable hquote => exact ⟨_, _, rfl, hprintable, hquote⟩
  | letter => exact ⟨_, _, rfl, rfl, by decide⟩
  | code => exact ⟨_, _, rfl, rfl, by decide⟩

/-- A character is found by its code. -/
theorem character?_toNat (c : Char) : character? c.toNat = some c := by
  have hvalid : c.toNat.isValidChar := c.valid
  rw [character?, if_pos hvalid, Char.ofNat_toNat]

/-- The letter u starts a code of four digits. -/
theorem escapeStep?_u : escapeStep? 'u' = some (none, .code 4 0) :=
  rfl

/-- A zero in front of a code leaves it zero. -/
theorem codeStep?_zero {missing : Nat} (h : 1 < missing) :
    codeStep? missing 0 '0' = some (none, .code (missing - 1) 0) := by
  have hdigit : hexValue? '0' = some 0 := rfl
  rw [codeStep?, hdigit]
  simp [Nat.not_le.2 h]

/-- The third digit of a code is the first that counts. -/
theorem codeStep?_high {high : Char} {n : Nat} (h : hexValue? high = some n) :
    codeStep? 2 0 high = some (none, .code 1 n) := by
  rw [codeStep?, h]
  simp

/-- The fourth digit of a code completes the character. -/
theorem codeStep?_low {low c : Char} (h : hexValue? low = some (c.toNat % 16)) :
    codeStep? 1 (c.toNat / 16) low = some (some c, .plain) := by
  have hcode : c.toNat / 16 * 16 + c.toNat % 16 = c.toNat := Nat.div_add_mod' c.toNat 16
  simp only [codeStep?, h, hcode, character?_toNat, le_refl, if_true, Option.map_some]

/-! ## Double quotes -/

/-- A written character is read back between double quotes. -/
theorem basicString_of_escaped {c : Char} {code : Text} (h : Escaped c code) (rest : Text) :
    basicString .plain (code ++ rest) = (basicString .plain rest).map (Text.consBefore c) := by
  cases h with
  | itself hprintable hquote hbackslash =>
    simp only [List.cons_append, List.nil_append, basicString, hquote, hbackslash, hprintable,
      if_false, if_true]
  | letter name hname =>
    simp [basicString, hname]
    rfl
  | code high low hhigh hlow =>
    simp [basicString, escapeStep?_u, codeStep?_zero, codeStep?_high hhigh, codeStep?_low hlow]
    rfl

/-- Between double quotes, with any characters written as escapes. -/
theorem basicString_flatMap_escape (text rest : Text) :
    basicString .plain (text.flatMap escape ++ '"' :: rest) = some (text, rest) := by
  induction text with
  | nil => rfl
  | cons c text ih =>
    rw [List.flatMap_cons, List.append_assoc, basicString_of_escaped (escaped_escape c), ih]
    rfl

/-! ## Threefold double quotes -/

/-- A character other than a quote is read by itself between threefold double quotes. -/
theorem longBasicString_of_not_quote {c : Char} (h : c ≠ '"') (rest : Text) :
    longBasicString .plain (c :: rest) =
      if c = '\\' then longBasicString .escape rest
      else if isPrintable c || c = '\n' then (longBasicString .plain rest).map (Text.consBefore c)
      else none := by
  simp [longBasicString, h]

/-- A text that does not begin with two characters does not consist of them and more. -/
theorem ne_cons_cons_of_not_isPrefix {c d : Char} {text : Text} (h : ¬ [c, d] <+: text)
    (more : Text) : text ≠ c :: d :: more := by
  rintro rfl
  exact h ⟨more, rfl⟩

/-- A quote that is not the first of three belongs to the content. -/
theorem longBasicString_of_quote {rest : Text} (h : ¬ ['"', '"'] <+: rest) :
    longBasicString .plain ('"' :: rest) =
      (longBasicString .plain rest).map (Text.consBefore '"') := by
  have hnone := ne_cons_cons_of_not_isPrefix h
  have hprintable : isPrintable '"' = true := rfl
  simp [longBasicString, hnone, hprintable]

/-- A written character is read back between threefold double quotes. -/
theorem longBasicString_of_escaped {c : Char} {code : Text} (h : Escaped c code) (rest : Text) :
    longBasicString .plain (code ++ rest) =
      (longBasicString .plain rest).map (Text.consBefore c) := by
  cases h with
  | itself hprintable hquote hbackslash =>
    rw [List.singleton_append, longBasicString_of_not_quote hquote, if_neg hbackslash, hprintable]
    rfl
  | letter name hname hspace hline =>
    simp [longBasicString_of_not_quote, longBasicString, hname, hspace, hline]
    rfl
  | code high low hhigh hlow =>
    have hspace : isSpace 'u' = false := rfl
    simp [longBasicString_of_not_quote, longBasicString, hspace, escapeStep?_u, codeStep?_zero,
      codeStep?_high hhigh, codeStep?_low hlow]
    rfl

/-- Up to two quotes in front of the closing ones belong to the content. -/
theorem longBasicString_close {rest : Text} (h : rest.head? ≠ some '"') :
    longBasicString .plain ('"' :: '"' :: '"' :: rest) = some ([], rest) ∧
    longBasicString .plain ('"' :: '"' :: '"' :: '"' :: rest) = some (['"'], rest) ∧
    longBasicString .plain ('"' :: '"' :: '"' :: '"' :: '"' :: rest) = some (['"', '"'], rest) := by
  rcases rest with _ | ⟨c, rest⟩
  · exact ⟨rfl, rfl, rfl⟩
  · have hc : c ≠ '"' := fun heq => h (congrArg some heq)
    simp [longBasicString, hc]

/-- A character other than a quote is written as it is if it ends a line, and else as between
double quotes. -/
theorem longContent_of_ne_quote {c : Char} (h : c ≠ '"') (quotes : Nat) (text : Text) :
    longContent quotes (c :: text) =
      (if c = '\n' then [c] else escape c) ++ longContent 2 text := by
  rw [longContent.eq_def]
  simp only [if_neg h]
  split <;> rfl

/-- A quote behind as many as may stand there is escaped. -/
theorem longContent_zero_quote (text : Text) :
    longContent 0 ('"' :: text) = escape '"' ++ longContent 2 text := by
  rw [longContent, if_pos rfl]

/-- A quote that may stand there is written as it is. -/
theorem longContent_succ_quote (quotes : Nat) (text : Text) :
    longContent (quotes + 1) ('"' :: text) = '"' :: longContent quotes text := by
  rw [longContent, if_pos rfl]

/-- The content starts with a quote only where the text does and the quote needs no escape. -/
theorem exists_longContent_eq_cons {quotes : Nat} {c : Char} (h : quotes = 0 ∨ c ≠ '"')
    (text : Text) : ∃ first more, longContent quotes (c :: text) = first :: more ∧ first ≠ '"' := by
  obtain ⟨first, more, hcode, -, hfirst⟩ := (escaped_escape c).exists_cons
  by_cases hc : c = '"'
  · subst hc
    obtain rfl := h.resolve_right (not_not_intro rfl)
    rw [longContent_zero_quote, hcode]
    exact ⟨first, _, rfl, hfirst⟩
  · rw [longContent_of_ne_quote hc]
    split
    · exact ⟨c, _, rfl, hc⟩
    · rw [hcode]
      exact ⟨first, _, rfl, hfirst⟩

/-- Where the content goes on with two quotes although not both may stand there as they are, the
closing quotes are among them. -/
theorem eq_of_quotes_prefix {quotes : Nat} (hquotes : quotes ≤ 1) {text rest : Text}
    (h : ['"', '"'] <+: longContent quotes text ++ '"' :: '"' :: '"' :: rest) :
    text = [] ∨ quotes = 1 ∧ text = ['"'] := by
  rcases text with _ | ⟨c, text⟩
  · exact .inl rfl
  · by_cases hfirst : quotes = 0 ∨ c ≠ '"'
    · obtain ⟨first, more, hcontent, hne⟩ := exists_longContent_eq_cons hfirst text
      rw [hcontent, List.cons_append, List.cons_prefix_cons] at h
      exact absurd h.1.symm hne
    · obtain ⟨hzero, hc⟩ := not_or.1 hfirst
      obtain rfl : quotes = 1 := by omega
      obtain rfl := not_not.1 hc
      rw [longContent_succ_quote, List.cons_append, List.cons_prefix_cons] at h
      rcases text with _ | ⟨d, text⟩
      · exact .inr ⟨rfl, rfl⟩
      · obtain ⟨first, more, hcontent, hne⟩ := exists_longContent_eq_cons (.inl rfl) text (c := d)
        rw [hcontent, List.cons_append, List.cons_prefix_cons] at h
        exact absurd h.2.1.symm hne

/-- Between threefold double quotes, with as many quotes in a row as may stand there. -/
theorem longBasicString_longContent {rest : Text} (h : rest.head? ≠ some '"') {quotes : Nat}
    (hquotes : quotes ≤ 2) (text : Text) :
    longBasicString .plain (longContent quotes text ++ '"' :: '"' :: '"' :: rest) =
      some (text, rest) := by
  induction text generalizing quotes with
  | nil => exact (longBasicString_close h).1
  | cons c text ih =>
    by_cases hc : c = '"'
    · subst hc
      rcases quotes with _ | quotes
      · rw [longContent_zero_quote, List.append_assoc,
          longBasicString_of_escaped (escaped_escape _), ih le_rfl]
        rfl
      · rw [longContent_succ_quote]
        -- A quote that stands as it is belongs to the content unless two more follow it. These can
        -- only be the closing ones, because the next two quotes would not both stand as they are.
        by_cases hpair : ['"', '"'] <+: longContent quotes text ++ '"' :: '"' :: '"' :: rest
        · obtain rfl | ⟨rfl, rfl⟩ := eq_of_quotes_prefix (by omega) hpair
          · exact (longBasicString_close h).2.1
          · exact (longBasicString_close h).2.2
        · rw [List.cons_append, longBasicString_of_quote hpair, ih (by omega)]
          rfl
    · rw [longContent_of_ne_quote hc, List.append_assoc]
      split
      · rename_i hline
        subst hline
        rw [List.singleton_append, longBasicString_of_not_quote hc, ih le_rfl]
        rfl
      · rw [longBasicString_of_escaped (escaped_escape c), ih le_rfl]
        rfl

/-! ## Apostrophes -/

/-- Between apostrophes, when nothing in the text needs an escape. -/
theorem literalString_append {text : Text}
    (h : ∀ c ∈ text, isPrintable c = true ∧ c ≠ '\'') (rest : Text) :
    literalString (text ++ '\'' :: rest) = some (text, rest) := by
  induction text with
  | nil => rfl
  | cons c text ih =>
    obtain ⟨⟨hprintable, hc⟩, htext⟩ := List.forall_mem_cons.1 h
    rw [List.cons_append, literalString, if_neg hc, if_pos hprintable, ih htext]
    rfl

/-- A character in front of which the string does not end belongs to the content. -/
theorem longLiteralString_cons {c : Char} {rest : Text} (hc : (isPrintable c || c = '\n') = true)
    (h : ¬ ['\'', '\'', '\''] <+: c :: rest) :
    longLiteralString (c :: rest) = (longLiteralString rest).map (Text.consBefore c) := by
  have hnone : ∀ more, c = '\'' → rest ≠ '\'' :: '\'' :: more := by
    rintro more rfl rfl
    exact h ⟨more, rfl⟩
  rw [longLiteralString]
  · rw [if_pos hc]
  all_goals exact fun more hquote => hnone _ hquote

/-- Up to two apostrophes in front of the closing ones belong to the content. -/
theorem longLiteralString_close {rest : Text} (h : rest.head? ≠ some '\'') :
    longLiteralString ('\'' :: '\'' :: '\'' :: rest) = some ([], rest) ∧
    longLiteralString ('\'' :: '\'' :: '\'' :: '\'' :: rest) = some (['\''], rest) ∧
    longLiteralString ('\'' :: '\'' :: '\'' :: '\'' :: '\'' :: rest) =
      some (['\'', '\''], rest) := by
  rcases rest with _ | ⟨c, rest⟩
  · exact ⟨rfl, rfl, rfl⟩
  · have hc : c ≠ '\'' := fun heq => h (congrArg some heq)
    simp [longLiteralString, hc]

/-- Where three apostrophes start that are not all in the text, the closing ones are among them. -/
theorem eq_of_apostrophes_prefix {c : Char} {text rest : Text}
    (htext : ¬ ['\'', '\'', '\''] <+: c :: text)
    (h : ['\'', '\'', '\''] <+: c :: (text ++ rest)) :
    c = '\'' ∧ (text = [] ∨ text = ['\'']) := by
  rw [List.cons_prefix_cons] at h
  refine ⟨h.1.symm, ?_⟩
  rcases text with _ | ⟨d, _ | ⟨e, text⟩⟩
  · exact .inl rfl
  · have hd := (List.cons_prefix_cons.1 h.2).1
    subst hd
    exact .inr rfl
  · refine absurd ?_ htext
    simpa [List.cons_prefix_cons] using h

/-- Between threefold apostrophes, when nothing in the text needs an escape. -/
theorem longLiteralString_append {text rest : Text} (h : rest.head? ≠ some '\'')
    (hchars : ∀ c ∈ text, (isPrintable c || c = '\n') = true)
    (hrow : ¬ ['\'', '\'', '\''] <:+: text) :
    longLiteralString (text ++ '\'' :: '\'' :: '\'' :: rest) = some (text, rest) := by
  induction text with
  | nil => exact (longLiteralString_close h).1
  | cons c text ih =>
    obtain ⟨hc, htext⟩ := List.forall_mem_cons.1 hchars
    have hstart : ¬ ['\'', '\'', '\''] <+: c :: text := fun hprefix => hrow hprefix.isInfix
    rw [List.cons_append]
    by_cases hquotes : ['\'', '\'', '\''] <+: c :: (text ++ '\'' :: '\'' :: '\'' :: rest)
    · obtain ⟨rfl, rfl | rfl⟩ := eq_of_apostrophes_prefix hstart hquotes
      · exact (longLiteralString_close h).2.1
      · exact (longLiteralString_close h).2.2
    · rw [longLiteralString_cons hc hquotes,
        ih htext fun hinfix => hrow (List.infix_cons hinfix)]
      rfl

/-! ## Any of the four forms -/

/-- One double quote starts a string of one line. -/
theorem string?_basic {text : Text} (h : ¬ ['"', '"'] <+: text) :
    string? ('"' :: text) = basicString .plain text := by
  rw [string?]
  exact fun more => ne_cons_cons_of_not_isPrefix h more

/-- One apostrophe starts a string of one line. -/
theorem string?_literal {text : Text} (h : ¬ ['\'', '\''] <+: text) :
    string? ('\'' :: text) = literalString text := by
  rw [string?]
  exact fun more => ne_cons_cons_of_not_isPrefix h more

/-- What needs no code can stand in a long string. -/
theorem isPrintable_of_not_needsCode {c : Char} (h : StringForm.needsCode c = false) :
    (isPrintable c || c = '\n') = true := by
  unfold StringForm.needsCode at h
  by_cases hcontrol : isControl c = true
  · by_cases htab : c = '\t'
    · subst htab
      rfl
    · have hline : c = '\n' := by simpa [hcontrol, htab] using h
      simp [hline]
  · rw [isPrintable_of_not_isControl (by simpa using hcontrol)]
    rfl

/-- A form without escapes is chosen only for texts that it says without them. -/
theorem isPlainFor_of_ofText {text : Text} {form : StringForm}
    (h : StringForm.ofText text = form) (hform : form = .literal ∨ form = .longLiteral) :
    StringForm.isPlainFor text form = true := by
  subst h
  unfold StringForm.ofText at hform ⊢
  cases hplain : [StringForm.basic, .literal, .longBasic, .longLiteral].find?
      (StringForm.isPlainFor text) with
  | some form => exact List.find?_some hplain
  | none =>
    rw [hplain, Option.getD_none, StringForm.withEscapes] at hform
    split at hform <;> simp at hform

/-- A text that is written between apostrophes can stand there as it is. -/
theorem isPrintable_of_literal {text : Text} (h : StringForm.ofText text = .literal) :
    ∀ c ∈ text, isPrintable c = true ∧ c ≠ '\'' := by
  have hplain := isPlainFor_of_ofText h (.inl rfl)
  simp only [StringForm.isPlainFor, Bool.not_eq_true', List.any_eq_false, Bool.or_eq_true,
    decide_eq_true_eq, not_or] at hplain
  intro c hc
  obtain ⟨⟨hcode, hquote⟩, hline⟩ := hplain c hc
  have hprintable := isPrintable_of_not_needsCode (by simpa using hcode)
  exact ⟨by simpa [hline] using hprintable, hquote⟩

/-- A text that is written between threefold apostrophes can stand there as it is. -/
theorem isPrintable_of_longLiteral {text : Text} (h : StringForm.ofText text = .longLiteral) :
    (∀ c ∈ text, (isPrintable c || c = '\n') = true) ∧ ¬ ['\'', '\'', '\''] <:+: text := by
  have hplain := isPlainFor_of_ofText h (.inr rfl)
  simp only [StringForm.isPlainFor, Bool.and_eq_true, Bool.not_eq_true',
    List.any_eq_false] at hplain
  obtain ⟨hcodes, hrow⟩ := hplain
  refine ⟨fun c hc => isPrintable_of_not_needsCode (by simpa using hcodes c hc), ?_⟩
  rw [← Text.holds_iff_isInfix, hrow]
  exact Bool.false_ne_true

/-- The line end that is written behind the opening quotes is the one that does not count. -/
theorem dropFirstLineEnd_openingLine {text content : Text}
    (h : '\n' ∉ text → content.head? ≠ some '\n') :
    dropFirstLineEnd (openingLine text ++ content) = content := by
  unfold openingLine
  split
  · rfl
  · rename_i hline
    have hhead := h fun hmem => hline (List.elem_iff.2 hmem)
    rcases content with _ | ⟨c, content⟩
    · rfl
    · have hc : c ≠ '\n' := fun heq => hhead (congrArg some heq)
      simp [dropFirstLineEnd, hc]

/-- The content of a long string starts with a line end only if the text has one. -/
theorem head?_longContent_ne_line {text : Text} (h : '\n' ∉ text) (rest : Text) :
    (longContent 2 text ++ '"' :: rest).head? ≠ some '\n' := by
  rcases text with _ | ⟨c, text⟩
  · simp [longContent]
  · have hline : c ≠ '\n' := fun heq => h (heq ▸ List.mem_cons_self)
    by_cases hc : c = '"'
    · subst hc
      rw [longContent_succ_quote]
      simp
    · obtain ⟨first, more, hcode, hprintable, -⟩ := (escaped_escape c).exists_cons
      rw [longContent_of_ne_quote hc, if_neg hline, hcode]
      intro hfirst
      obtain rfl : first = '\n' := Option.some.inj hfirst
      exact absurd hprintable (by decide)

/-- The second of two quotes at the start can only be the closing one, with a quote behind it. -/
theorem not_isPrefix_quotes {quote : Char} {content rest : Text}
    (hcontent : content.head? ≠ some quote) (hrest : rest.head? ≠ some quote) :
    ¬ [quote, quote] <+: content ++ quote :: rest := by
  rcases content with _ | ⟨c, content⟩
  · rcases rest with _ | ⟨d, rest⟩
    · simp
    · have hd : d ≠ quote := fun heq => hrest (congrArg some heq)
      simpa [List.cons_prefix_cons] using hd.symm
  · have hc : c ≠ quote := fun heq => hcontent (congrArg some heq)
    simp [List.cons_prefix_cons, hc.symm]

/-- Between double quotes no content starts with a quote. -/
theorem head?_flatMap_escape_ne_quote (text : Text) : (text.flatMap escape).head? ≠ some '"' := by
  rcases text with _ | ⟨c, text⟩
  · simp
  · obtain ⟨first, more, hcode, -, hfirst⟩ := (escaped_escape c).exists_cons
    simpa [hcode] using hfirst

/-- A string is read as the text that it was written for. -/
theorem string?_ofText {rest : Text} (hquote : rest.head? ≠ some '"')
    (hapostrophe : rest.head? ≠ some '\'') (text : Text) :
    string? (ofText text ++ rest) = some (text, rest) := by
  unfold ofText
  cases hform : StringForm.ofText text with
  | basic =>
    have hpair := not_isPrefix_quotes (head?_flatMap_escape_ne_quote text) hquote
    simp only [List.cons_append, List.append_assoc, List.nil_append]
    rw [string?_basic hpair, basicString_flatMap_escape]
  | literal =>
    have hplain := isPrintable_of_literal hform
    have hhead : text.head? ≠ some '\'' := fun h => (hplain _ (List.mem_of_head? h)).2 rfl
    simp only [List.cons_append, List.append_assoc, List.nil_append]
    rw [string?_literal (not_isPrefix_quotes hhead hapostrophe), literalString_append hplain]
  | longBasic =>
    have hline : dropFirstLineEnd (openingLine text ++
        (longContent 2 text ++ '"' :: '"' :: '"' :: rest)) =
          longContent 2 text ++ '"' :: '"' :: '"' :: rest :=
      dropFirstLineEnd_openingLine fun h => head?_longContent_ne_line h _
    simp only [List.cons_append, List.append_assoc, List.nil_append, string?]
    rw [hline, longBasicString_longContent hquote le_rfl]
  | longLiteral =>
    obtain ⟨hchars, hrow⟩ := isPrintable_of_longLiteral hform
    have hline : dropFirstLineEnd (openingLine text ++ (text ++ '\'' :: '\'' :: '\'' :: rest)) =
        text ++ '\'' :: '\'' :: '\'' :: rest := by
      refine dropFirstLineEnd_openingLine fun h => ?_
      rcases text with _ | ⟨c, text⟩
      · simp
      · simpa using fun heq : c = '\n' => h (heq ▸ List.mem_cons_self)
    simp only [List.cons_append, List.append_assoc, List.nil_append, string?]
    rw [hline, longLiteralString_append hapostrophe hchars hrow]

/-! ## No carriage returns -/

/-- A carriage return is never written as it is. -/
theorem Escaped.return_notMem {c : Char} {code : Text} (h : Escaped c code) : '\r' ∉ code := by
  cases h with
  | itself hprintable =>
    rintro (_ | ⟨_, ⟨⟩⟩)
    exact absurd hprintable (by decide)
  | letter name hname =>
    have hne : name ≠ '\r' := by
      rintro rfl
      cases hname
    simp [hne.symm]
  | code high low hhigh hlow =>
    have hne : ∀ digit n, hexValue? digit = some n → digit ≠ '\r' := by
      rintro digit n hdigit rfl
      cases hdigit
    simp [(hne high _ hhigh).symm, (hne low _ hlow).symm]

/-- The content of a long string has no carriage return in it. -/
theorem return_notMem_longContent (quotes : Nat) (text : Text) :
    '\r' ∉ longContent quotes text := by
  induction text generalizing quotes with
  | nil => simp [longContent]
  | cons c text ih =>
    by_cases hc : c = '"'
    · subst hc
      rcases quotes with _ | quotes
      · rw [longContent_zero_quote, List.mem_append, not_or]
        exact ⟨(escaped_escape _).return_notMem, ih 2⟩
      · rw [longContent_succ_quote, List.mem_cons, not_or]
        exact ⟨by decide, ih quotes⟩
    · rw [longContent_of_ne_quote hc, List.mem_append, not_or]
      refine ⟨?_, ih 2⟩
      split
      · rename_i hline
        simp [hline]
      · exact (escaped_escape c).return_notMem

/-- A text that can stand as it is has no carriage return in it. -/
theorem return_notMem_of_isPrintable {text : Text}
    (h : ∀ c ∈ text, (isPrintable c || c = '\n') = true) : '\r' ∉ text := by
  intro hmem
  exact absurd (h _ hmem) (by decide)

/-- The line end behind the opening quotes has no carriage return. -/
theorem return_notMem_openingLine (text : Text) : '\r' ∉ openingLine text := by
  unfold openingLine
  split <;> simp

/-- No string has a carriage return in it, so that reading lines does not change it. -/
theorem return_notMem_ofText (text : Text) : '\r' ∉ ofText text := by
  unfold ofText
  cases hform : StringForm.ofText text with
  | basic =>
    have hcodes : '\r' ∉ text.flatMap escape := by
      rw [List.mem_flatMap]
      rintro ⟨c, -, hmem⟩
      exact (escaped_escape c).return_notMem hmem
    simpa using hcodes
  | literal =>
    have htext : '\r' ∉ text := return_notMem_of_isPrintable fun c hc => by
      rw [(isPrintable_of_literal hform c hc).1, Bool.true_or]
    simpa using htext
  | longBasic =>
    simpa using ⟨return_notMem_openingLine text, return_notMem_longContent 2 text⟩
  | longLiteral =>
    have htext := return_notMem_of_isPrintable (isPrintable_of_longLiteral hform).1
    simpa using ⟨return_notMem_openingLine text, htext⟩

end Toml

end EventFinder
