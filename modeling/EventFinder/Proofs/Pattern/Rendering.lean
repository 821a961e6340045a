import EventFinder.Proofs.Pattern.TokenLists
import EventFinder.Proofs.Text.Offsets

/-!
# Reading what was rendered

Reading a pattern and rendering its tokens are inverse to each other. `TokenLists` shows that what
is read renders to what was read from; here a normal token list is rendered and read again
(`tokenize_render`), so that the token lists of patterns are exactly the normal ones, without
adjacent placeholders where these are refused (`tokenize_eq_ok_iff`).

The other half of the file is about offsets. `tokenizeInPlace` reads a pattern as one does who has
it in memory as bytes: it remembers where a literal text began and cuts it out when it ends. The
cuts are all between characters, and the tokens are the same (`tokenizeInPlace_eq`).
-/

set_option autoImplicit false

namespace EventFinder

namespace Token

/-- Puts literal text in front of tokens, as one literal with the text that they start with. -/
def prepend (text : Text) (tokens : List Token) : List Token :=
  text.foldr consLiteral tokens

/-- The empty text in front changes nothing. -/
@[simp] theorem prepend_nil (tokens : List Token) : prepend [] tokens = tokens :=
  rfl

/-- A text is put in front from its last character to its first. -/
@[simp] theorem prepend_cons (c : Char) (text : Text) (tokens : List Token) :
    prepend (c :: text) tokens = consLiteral c (prepend text tokens) :=
  rfl

/-- The last character of a text comes to stand directly in front of the tokens. -/
theorem prepend_append_singleton (text : Text) (c : Char) (tokens : List Token) :
    prepend (text ++ [c]) tokens = prepend text (consLiteral c tokens) := by
  simp [prepend]

/-- In front of tokens that start with no literal, text becomes a literal of its own. -/
theorem prepend_of_ne_nil {text : Text} {tokens : List Token} (hne : text ≠ [])
    (htokens : ∀ token ∈ tokens.head?, token.isField = true) :
    prepend text tokens = literal text :: tokens := by
  induction text with
  | nil => exact absurd rfl hne
  | cons c text ih =>
    by_cases htext : text = []
    · subst htext
      rcases tokens with _ | ⟨first | first, tokens⟩
      · rfl
      · simp [isField] at htokens
      · rfl
    · rw [prepend_cons, ih htext]
      rfl

/-- In front of a placeholder a text becomes a literal of its own. -/
theorem prepend_field (text : Text) (placeholder : Placeholder) (tokens : List Token) :
    prepend text (field placeholder :: tokens) =
      prepend text [] ++ field placeholder :: tokens := by
  by_cases htext : text = []
  · subst htext
    rfl
  · rw [prepend_of_ne_nil htext (by simp [isField]), prepend_of_ne_nil htext (by simp)]
    rfl

end Token

/-! ## Normal token lists -/

/-- Behind the first token the tokens are in normal form as well. -/
theorem NormalTokens.tail {token : Token} {tokens : List Token}
    (h : NormalTokens (token :: tokens)) : NormalTokens tokens :=
  ⟨fun text htext => h.literal_ne_nil text (List.mem_cons_of_mem _ htext),
    fun text htext => h.mark_notMem text (List.mem_cons_of_mem _ htext), h.literals_apart.tail⟩

/-- Behind a literal there is a placeholder, if anything. -/
theorem NormalTokens.isField_of_literal {text : Text} {tokens : List Token}
    (h : NormalTokens (.literal text :: tokens)) :
    ∀ token ∈ tokens.head?, token.isField = true := by
  intro token htoken
  simpa [Token.isField] using List.IsChain.rel_head? h.literals_apart htoken

/-- Where no two placeholders touch, a literal stands behind each. -/
theorem FieldsApart.startsLiterally {placeholder : Placeholder} {tokens : List Token}
    (h : FieldsApart (.field placeholder :: tokens)) : StartsLiterally tokens := by
  intro token htoken
  simpa [Token.isField] using List.IsChain.rel_head? h htoken

/-! ## Reading rendered tokens -/

section Reading

variable {adjacency : Adjacency}

/-- A character other than the mark of placeholders is text of a literal. -/
theorem tokenize_cons_of_ne {c : Char} (hc : c ≠ placeholderMark) (offset : Nat)
    (previous : Option Placeholder) (rest : Text) :
    tokenize adjacency offset previous (c :: rest) =
      (tokenize adjacency (offset + c.utf8Size) none rest).map (Token.consLiteral c) := by
  rw [tokenize.eq_def]
  simp only [if_neg hc]

/-- Literal text in front of a pattern becomes literal text in front of its tokens. -/
theorem tokenize_append {text : Text} (hmark : placeholderMark ∉ text) (offset : Nat)
    (previous : Option Placeholder) (rest : Text) :
    tokenize adjacency offset previous (text ++ rest) =
      (tokenize adjacency (offset + text.byteLength) (if text = [] then previous else none)
        rest).map (Token.prepend text) := by
  induction text generalizing offset previous with
  | nil =>
    have hmap : ∀ result : Except PatternError (List Token),
        result.map (Token.prepend []) = result := by
      rintro (e | tokens) <;> rfl
    rw [hmap]
    rfl
  | cons c text ih =>
    simp only [List.mem_cons, not_or] at hmark
    have hpieces : ∀ result : Except PatternError (List Token),
        (result.map (Token.prepend text)).map (Token.consLiteral c) =
          result.map (Token.prepend (c :: text)) := by
      rintro (e | tokens) <;> rfl
    rw [List.cons_append, tokenize_cons_of_ne (Ne.symm hmark.1), ih hmark.2, hpieces,
      if_neg (List.cons_ne_nil c text), ite_self, Text.byteLength_cons, Nat.add_assoc]

/-- A placeholder in front of a pattern is read first, if one may stand there. -/
theorem tokenize_field {previous : Option Placeholder}
    (hpermitted : adjacency = .refused → previous = none) (offset : Nat)
    (placeholder : Placeholder) (rest : Text) :
    tokenize adjacency offset previous (placeholder.text ++ rest) =
      (tokenize adjacency (offset + placeholder.text.byteLength) (some placeholder) rest).map
        (Token.field placeholder :: ·) := by
  have hcode : Placeholder.ofCode? placeholder.code = some placeholder :=
    Placeholder.ofCode?_eq_some_iff.2 rfl
  have hlength : offset + placeholder.text.byteLength =
      offset + placeholderMark.utf8Size + placeholder.code.utf8Size := by
    simp [Placeholder.text, Nat.add_assoc]
  rw [hlength, Placeholder.text, List.cons_append, List.singleton_append, tokenize.eq_def]
  simp only [if_true, hcode]
  split
  · cases hpermitted rfl
  · rfl

/-- A normal token list is read from its own text. -/
theorem tokenize_render {offset : Nat} {previous : Option Placeholder} {tokens : List Token}
    (hnormal : NormalTokens tokens)
    (hapart : adjacency = .refused →
      FieldsApart tokens ∧ (previous.isSome → StartsLiterally tokens)) :
    tokenize adjacency offset previous (render tokens) = .ok tokens := by
  induction tokens generalizing offset previous with
  | nil => rfl
  | cons token tokens ih =>
    cases token with
    | literal text =>
      have hne : text ≠ [] := hnormal.literal_ne_nil text List.mem_cons_self
      have hmark : placeholderMark ∉ text := hnormal.mark_notMem text List.mem_cons_self
      have hrest : tokenize adjacency (offset + text.byteLength) none (render tokens) =
          .ok tokens :=
        ih hnormal.tail fun hrefused => ⟨(hapart hrefused).1.tail, nofun⟩
      rw [render_cons, Token.text, tokenize_append hmark, if_neg hne, hrest, map_ok,
        Token.prepend_of_ne_nil hne hnormal.isField_of_literal]
    | field placeholder =>
      have hpermitted : adjacency = .refused → previous = none := by
        intro hrefused
        rw [← Option.not_isSome_iff_eq_none]
        intro hsome
        simpa [Token.isField] using (hapart hrefused).2 hsome (.field placeholder) rfl
      have hrest : tokenize adjacency (offset + placeholder.text.byteLength) (some placeholder)
          (render tokens) = .ok tokens :=
        ih hnormal.tail fun hrefused =>
          ⟨(hapart hrefused).1.tail, fun _ => (hapart hrefused).1.startsLiterally⟩
      rw [render_cons, Token.text, tokenize_field hpermitted, hrest, map_ok]

/-- The token lists that are read are the normal ones that render to what they are read from. -/
theorem tokenize_eq_ok_iff {offset : Nat} {previous : Option Placeholder} {source : Text}
    {tokens : List Token} :
    tokenize adjacency offset previous source = .ok tokens ↔
      NormalTokens tokens ∧ render tokens = source ∧
        (adjacency = .refused →
          FieldsApart tokens ∧ (previous.isSome → StartsLiterally tokens)) := by
  constructor
  · exact tokenize_eq_ok
  · rintro ⟨hnormal, rfl, hapart⟩
    exact tokenize_render hnormal hapart

end Reading

/-! ## Reading in place -/

/-- The tokens with the literal text between two offsets of a pattern behind them, if there is any.
-/
def cutLiteral? (pattern : Text) (start stop : Nat) (tokens : List Token) : Option (List Token) :=
  if start < stop then
    (pattern.slice? start stop).map fun text => tokens ++ [.literal text]
  else some tokens

/-- Reads a pattern in one pass over its characters and cuts the literal texts out of it. `offset`
is where the pass stands in bytes, `start` is where the literal text began that it may be in, and
`tokens` are those that have been read. There is no result if a cut would go through a character.
-/
def tokenizeInPlace (adjacency : Adjacency) (pattern : Text) (offset start : Nat)
    (previous : Option Placeholder) (tokens : List Token) :
    Text → Option (Except PatternError (List Token))
  | [] => (cutLiteral? pattern start pattern.byteLength tokens).map .ok
  | c :: rest =>
    if c = placeholderMark then
      match adjacency, previous with
      | .refused, some previous =>
        (pattern.slice? offset pattern.byteLength).map fun text =>
          .error (.adjacentPlaceholders previous (text.take 2) offset)
      | _, _ =>
        match cutLiteral? pattern start offset tokens with
        | none => none
        | some tokens =>
          match rest with
          | [] => some (.error (.trailingPercent offset))
          | code :: rest =>
            match Placeholder.ofCode? code with
            | none => some (.error (.unknownPlaceholder code offset))
            | some placeholder =>
              let next := offset + c.utf8Size + code.utf8Size
              tokenizeInPlace adjacency pattern next next (some placeholder)
                (tokens ++ [.field placeholder]) rest
    else
      tokenizeInPlace adjacency pattern (offset + c.utf8Size) start none tokens rest

/-- Text between two offsets of a pattern is cut out as a literal, if both are where it starts and
ends. -/
theorem cutLiteral?_append (before text rest : Text) (tokens : List Token) :
    cutLiteral? (before ++ text ++ rest) before.byteLength (before ++ text).byteLength tokens =
      some (tokens ++ Token.prepend text []) := by
  by_cases hne : text = []
  · subst hne
    simp [cutLiteral?]
  · have hlt : before.byteLength < (before ++ text).byteLength := by
      have := Text.byteLength_pos hne
      rw [Text.byteLength_append]
      omega
    have hslice : (before ++ text ++ rest).slice? before.byteLength (before ++ text).byteLength =
        some text :=
      Text.slice?_eq_some_iff.2 ⟨before, rest, rfl, rfl, rfl⟩
    rw [cutLiteral?, if_pos hlt, hslice, Token.prepend_of_ne_nil hne (by simp)]
    rfl

/-- At the mark of a placeholder the literal in front of it is complete, and the next character
decides. -/
theorem tokenizeInPlace_mark {adjacency : Adjacency} {previous : Option Placeholder}
    (hpermitted : ∀ other, adjacency = .refused → previous = some other → False)
    {pattern : Text} {offset start : Nat} {tokens cut : List Token}
    (hcut : cutLiteral? pattern start offset tokens = some cut) (rest : Text) :
    tokenizeInPlace adjacency pattern offset start previous tokens (placeholderMark :: rest) =
      match rest with
      | [] => some (.error (.trailingPercent offset))
      | code :: rest =>
        match Placeholder.ofCode? code with
        | none => some (.error (.unknownPlaceholder code offset))
        | some placeholder =>
          let next := offset + placeholderMark.utf8Size + code.utf8Size
          tokenizeInPlace adjacency pattern next next (some placeholder)
            (cut ++ [.field placeholder]) rest := by
  rw [tokenizeInPlace.eq_def]
  simp only [if_true, hcut]
  rcases adjacency with _ | _
  · cases previous with
    | none => rfl
    | some other => exact (hpermitted other rfl rfl).elim
  · rfl

/-- Reading in place goes on from a place in a pattern as reading does, with the literal text in
front of the tokens that began before this place. -/
theorem tokenizeInPlace_append (adjacency : Adjacency) (before text rest : Text)
    (previous : Option Placeholder) (tokens : List Token) :
    tokenizeInPlace adjacency (before ++ text ++ rest) (before ++ text).byteLength
        before.byteLength previous tokens rest =
      some ((tokenize adjacency (before ++ text).byteLength previous rest).map fun others =>
        tokens ++ Token.prepend text others) := by
  generalize hoffset : (before ++ text).byteLength = offset
  fun_induction tokenize adjacency offset previous rest generalizing before text tokens with
  | case1 offset previous =>
    subst hoffset
    have hcut := cutLiteral?_append before text [] tokens
    rw [List.append_nil] at hcut ⊢
    rw [tokenizeInPlace, hcut]
    rfl
  | case2 offset rest previous hrefused =>
    subst hoffset hrefused
    have hslice : (before ++ text ++ placeholderMark :: rest).slice? (before ++ text).byteLength
        (before ++ text ++ placeholderMark :: rest).byteLength =
          some (placeholderMark :: rest) :=
      Text.slice?_eq_some_iff.2 ⟨before ++ text, [], by simp, rfl, rfl⟩
    rw [tokenizeInPlace.eq_def]
    simp only [if_true, hslice]
    rfl
  | case3 offset previous hpermitted =>
    subst hoffset
    rw [tokenizeInPlace_mark hpermitted (cutLiteral?_append before text _ tokens)]
    rfl
  | case4 offset previous code rest hcode hpermitted =>
    subst hoffset
    rw [tokenizeInPlace_mark hpermitted (cutLiteral?_append before text _ tokens)]
    simp only [hcode]
    rfl
  | case5 offset previous code rest placeholder hcode hpermitted ih =>
    subst hoffset
    have hpattern : before ++ text ++ [placeholderMark, code] ++ [] ++ rest =
        before ++ text ++ placeholderMark :: code :: rest := by
      simp
    have hnext : (before ++ text ++ [placeholderMark, code]).byteLength =
        (before ++ text).byteLength + placeholderMark.utf8Size + code.utf8Size := by
      simp [Nat.add_assoc]
    have hrest := ih (before ++ text ++ [placeholderMark, code]) []
      (tokens ++ Token.prepend text [] ++ [.field placeholder]) (by rw [List.append_nil, hnext])
    rw [hpattern, hnext] at hrest
    rw [tokenizeInPlace_mark hpermitted (cutLiteral?_append before text _ tokens)]
    simp only [hcode]
    rw [hrest, map_map]
    congr 2
    funext others
    simp only [Function.comp_apply, Token.prepend_field text placeholder others]
    simp
  | case6 offset previous c rest hc ih =>
    subst hoffset
    have hpattern : before ++ (text ++ [c]) ++ rest = before ++ text ++ c :: rest := by
      simp
    have hnext : (before ++ (text ++ [c])).byteLength =
        (before ++ text).byteLength + c.utf8Size := by
      simp [Nat.add_assoc]
    have hrest := ih before (text ++ [c]) tokens hnext
    rw [hpattern] at hrest
    rw [tokenizeInPlace.eq_def]
    simp only [if_neg hc]
    rw [hrest, map_map]
    simp only [Token.prepend_append_singleton, Function.comp_def]

/-- Reading in place reads what reading does, and never cuts through a character. -/
theorem tokenizeInPlace_eq (adjacency : Adjacency) (source : Text) :
    tokenizeInPlace adjacency source 0 0 none [] source =
      some (tokenize adjacency 0 none source) := by
  have hstart := tokenizeInPlace_append adjacency [] [] source none []
  have hmap : ∀ result : Except PatternError (List Token),
      result.map (fun others => [] ++ Token.prepend [] others) = result := by
    rintro (e | tokens) <;> rfl
  rwa [hmap] at hstart

/-! ## Patterns -/

namespace Pattern

/-- A compiled pattern is a normal token list without adjacent placeholders, with its text. -/
theorem compile_eq_ok_iff {source : Text} {pattern : Pattern} :
    compile source = .ok pattern ↔
      pattern.source = source ∧ NormalTokens pattern.tokens ∧ FieldsApart pattern.tokens ∧
        render pattern.tokens = source := by
  obtain ⟨text, tokens⟩ := pattern
  simp only [compile, map_eq_ok_iff, Pattern.mk.injEq, tokenize_eq_ok_iff, forall_const,
    Option.isSome_none, Bool.false_eq_true, false_imp_iff, and_true]
  constructor
  · rintro ⟨_, ⟨hnormal, hrender, hapart⟩, rfl, rfl⟩
    exact ⟨rfl, hnormal, hapart, hrender⟩
  · rintro ⟨rfl, hnormal, hapart, hrender⟩
    exact ⟨_, ⟨hnormal, hrender, hapart⟩, rfl, rfl⟩

/-- A leniently compiled pattern is a normal token list with its text. -/
theorem compileLenient_eq_ok_iff {source : Text} {pattern : Pattern} :
    compileLenient source = .ok pattern ↔
      pattern.source = source ∧ NormalTokens pattern.tokens ∧ render pattern.tokens = source := by
  obtain ⟨text, tokens⟩ := pattern
  simp only [compileLenient, map_eq_ok_iff, Pattern.mk.injEq, tokenize_eq_ok_iff, reduceCtorEq,
    false_imp_iff, and_true]
  constructor
  · rintro ⟨_, ⟨hnormal, hrender⟩, rfl, rfl⟩
    exact ⟨rfl, hnormal, hrender⟩
  · rintro ⟨rfl, hnormal, hrender⟩
    exact ⟨_, ⟨hnormal, hrender⟩, rfl, rfl⟩

/-- Compiling and rendering are inverse. From left to right, what is compiled keeps its text, which
its tokens render to; from right to left, any token list of the right form is compiled from the text
that it renders to. Whoever reads the pattern in place gets the same and cuts only between
characters. -/
theorem compile_inverts_render :
    (∀ source pattern, compile source = .ok pattern ↔
      pattern.source = source ∧ NormalTokens pattern.tokens ∧ FieldsApart pattern.tokens ∧
        render pattern.tokens = source) ∧
    (∀ source pattern, compileLenient source = .ok pattern ↔
      pattern.source = source ∧ NormalTokens pattern.tokens ∧ render pattern.tokens = source) ∧
    ∀ adjacency source, tokenizeInPlace adjacency source 0 0 none [] source =
      some (tokenize adjacency 0 none source) :=
  ⟨fun _ _ => compile_eq_ok_iff, fun _ _ => compileLenient_eq_ok_iff, tokenizeInPlace_eq⟩

end Pattern

end EventFinder
