import Mathlib.Data.List.Infix
import EventFinder.Proofs.Json.Reader
import EventFinder.Proofs.Text.Numerals
import EventFinder.Proofs.Toml.Values

/-!
# Written JSON is read back

Every JSON value is read back from its text, in both layouts (`read?_text`). The lemma behind it,
`value?_write`, has any text behind the value: a number ends where no further digit can follow, and
every other value shows its own end. The induction is on the depth to which the reader may go, for
which the length of what is written is enough, since a part is shorter than the list it is in.
-/

set_option autoImplicit false

namespace EventFinder

namespace Json

/-! ## Strings -/

/-- A hexadecimal digit is read back. -/
theorem hexValue?_hexDigit {n : Nat} (h : n < 16) : Toml.hexValue? (hexDigit n) = some n := by
  revert n
  decide

/-- A character other than the closing quote takes the reader of a string one step on. -/
theorem string?_of_step {state next : StringState} {c : Char} {finished : Option Char}
    (hquote : c ≠ '"') (h : state.step? c = some (finished, next)) (rest : Text) :
    string? state (c :: rest) = (string? next rest).map (Toml.consStep finished) := by
  rw [string?, if_neg (fun hend => hquote hend.1), h]

/-- A letter behind a backslash is the character that it stands for. -/
theorem string?_of_letter {letter c : Char} (hletter : letter ≠ 'u')
    (h : escaped? letter = some c) (rest : Text) :
    string? (.plain none) ('\\' :: letter :: rest) =
      (string? (.plain none) rest).map (Text.consBefore c) := by
  have hescape : StringState.step? (.escape none) letter = some (some c, .plain none) := by
    simp only [StringState.step?, if_neg hletter, h, Option.map_some]
  rw [string?_of_step (by decide) rfl, string?]
  simp [hescape]
  rfl

/-- A code unit in front of the surrogates is a character by itself. -/
theorem unitStep?_toNat {c : Char} (h : c.toNat < 0xD800) :
    unitStep? none c.toNat = some (some c, .plain none) := by
  have hlow : ¬ (0xD800 ≤ c.toNat ∧ c.toNat < 0xDC00) := by omega
  simp only [unitStep?, if_neg hlow, Toml.character?_toNat, Option.map_some]

/-- The code of a control character is the character. -/
theorem string?_of_code {c : Char} (h : c.toNat < 0x20) (rest : Text) :
    string? (.plain none)
        ('\\' :: 'u' :: '0' :: '0' :: hexDigit (c.toNat / 16) :: hexDigit (c.toNat % 16) :: rest) =
      (string? (.plain none) rest).map (Text.consBefore c) := by
  have hhigh := hexValue?_hexDigit (n := c.toNat / 16) (by omega)
  have hlow := hexValue?_hexDigit (n := c.toNat % 16) (by omega)
  have hcode : c.toNat / 16 * 16 + c.toNat % 16 = c.toNat := Nat.div_add_mod' c.toNat 16
  have hzero : Toml.hexValue? '0' = some 0 := rfl
  have hunit := unitStep?_toNat (c := c) (by omega)
  simp [string?, StringState.step?, hzero, hhigh, hlow, hcode, hunit]
  rfl

/-- A character is read back from a string, escaped or as it is. -/
theorem string?_escape (c : Char) (rest : Text) :
    string? (.plain none) (escape c ++ rest) =
      (string? (.plain none) rest).map (Text.consBefore c) := by
  unfold escape
  split_ifs with hquote hbackslash hb ht hn hf hr hcontrol
  · subst hquote
    exact string?_of_letter (by decide) rfl rest
  · subst hbackslash
    exact string?_of_letter (by decide) rfl rest
  · subst hb
    exact string?_of_letter (by decide) rfl rest
  · subst ht
    exact string?_of_letter (by decide) rfl rest
  · subst hn
    exact string?_of_letter (by decide) rfl rest
  · subst hf
    exact string?_of_letter (by decide) rfl rest
  · subst hr
    exact string?_of_letter (by decide) rfl rest
  · exact string?_of_code hcontrol rest
  · have hplain : StringState.step? (.plain none) c = some (some c, .plain none) := by
      simp only [StringState.step?, if_neg hbackslash, if_neg hcontrol]
    rw [List.singleton_append, string?_of_step hquote hplain]
    rfl

/-- A string is read back from what stands between its quotes. -/
theorem string?_flatMap_escape (text rest : Text) :
    string? (.plain none) (text.flatMap escape ++ '"' :: rest) = some (text, rest) := by
  induction text with
  | nil => rfl
  | cons c text ih =>
    rw [List.flatMap_cons, List.append_assoc, string?_escape, ih]
    rfl

/-! ## Blanks -/

/-- A new line and its indent are skipped. -/
theorem skipBlanks_newLine (layout : Layout) (level : Nat) (text : Text) :
    skipBlanks (layout.newLine level ++ text) = skipBlanks text := by
  have hblanks : ∀ c ∈ layout.newLine level, isBlank c = true := by
    intro c hc
    cases layout with
    | compact => cases hc
    | spread =>
      obtain rfl | hspace := List.mem_cons.1 hc
      · rfl
      · rw [List.eq_of_mem_replicate hspace]
        rfl
  exact List.dropWhile_append_of_pos hblanks

/-- Nothing is skipped in front of a character that is no blank. -/
theorem skipBlanks_of_not_isBlank {c : Char} (h : isBlank c = false) (text : Text) :
    skipBlanks (c :: text) = c :: text := by
  simp [skipBlanks, h]

/-- Behind a name nothing is skipped in front of the colon. -/
theorem skipBlanks_colon (layout : Layout) (text : Text) :
    skipBlanks (layout.colon ++ text) = ':' :: (layout.colon ++ text).tail := by
  cases layout <;> rfl

/-- Values are read from behind the blanks in front of them. -/
theorem value?_skipBlanks (depth : Nat) {blanks text : Text}
    (h : skipBlanks (blanks ++ text) = skipBlanks text) :
    value? depth (blanks ++ text) = value? depth text := by
  cases depth with
  | zero => rfl
  | succ depth => rw [value?, h, value?]

/-! ## Words and numbers -/

/-- No letter or digit follows that could belong to a word before it. -/
def EndsWord (rest : Text) : Prop :=
  ∀ c ∈ rest.head?, isWordChar c = false

/-- Digits belong to words. -/
theorem isWordChar_of_isDigit {c : Char} (h : c.isDigit = true) : isWordChar c = true := by
  simp [isWordChar, Char.isAlphanum, h]

/-- A character of words is none that ends them. -/
theorem ne_of_isWordChar {c d : Char} (hc : isWordChar c = true) (hd : isWordChar d = false) :
    c ≠ d := by
  rintro rfl
  exact Bool.false_ne_true (hd.symm.trans hc)

/-- A character of words is no blank. -/
theorem isBlank_of_isWordChar {c : Char} (h : isWordChar c = true) : isBlank c = false := by
  have hspace := ne_of_isWordChar h (d := ' ') rfl
  have htab := ne_of_isWordChar h (d := '\t') rfl
  have hline := ne_of_isWordChar h (d := '\n') rfl
  have hreturn := ne_of_isWordChar h (d := '\r') rfl
  simp [isBlank, hspace, htab, hline, hreturn]

/-- A word is read as the value that it stands for. -/
theorem value?_of_word {word rest : Text} {json : Json} (hne : word ≠ [])
    (hword : ∀ c ∈ word, isWordChar c = true) (hjson : word? word = some json)
    (hrest : EndsWord rest) (depth : Nat) :
    value? (depth + 1) (word ++ rest) = some (json, rest) := by
  have htake : (word ++ rest).takeWhile isWordChar = word := by
    have hnone : rest.takeWhile isWordChar = [] := by
      cases rest with
      | nil => rfl
      | cons d rest => simp [hrest d rfl]
    rw [List.takeWhile_append_of_pos hword, hnone, List.append_nil]
  have hdrop : (word ++ rest).dropWhile isWordChar = rest := by
    rw [List.dropWhile_append_of_pos hword]
    cases rest with
    | nil => rfl
    | cons d rest => simp [hrest d rfl]
  obtain ⟨c, more, rfl⟩ := List.exists_cons_of_ne_nil hne
  have hc := hword c List.mem_cons_self
  have hskip : skipBlanks (c :: more ++ rest) = c :: more ++ rest :=
    skipBlanks_of_not_isBlank (isBlank_of_isWordChar hc) _
  rw [value?, hskip]
  -- The signs that start the other kinds of values are no characters of a word.
  split
  · rename_i heq
    exact absurd (List.cons.inj heq).1 (ne_of_isWordChar hc rfl)
  · rename_i heq
    exact absurd (List.cons.inj heq).1 (ne_of_isWordChar hc rfl)
  · rename_i heq
    exact absurd (List.cons.inj heq).1 (ne_of_isWordChar hc rfl)
  · rw [htake, hdrop, hjson, Option.map_some]

/-- A natural number is written without leading zeros. -/
theorem head?_ofNat {n : Nat} (h : n ≠ 0) : (Text.ofNat n).head? ≠ some '0' := by
  induction n using Nat.strongRecOn with
  | ind n ih =>
    by_cases hn : n < 10
    · rw [Text.ofNat, Nat.toDigits_of_lt_base hn]
      simpa using h
    · have hdigits : Text.ofNat n = Text.ofNat (n / 10) ++ [Nat.digitChar (n % 10)] :=
        Nat.toDigits_of_base_le (by decide) (by omega)
      have hne : Text.ofNat (n / 10) ≠ [] := Nat.toDigits_ne_nil
      rw [hdigits, List.head?_append_of_ne_nil _ hne]
      exact ih (n / 10) (by omega) (by omega)

/-- A written natural number is read back. -/
theorem natural?_ofNat (n : Nat) : natural? (Text.ofNat n) = some n := by
  have hzeros : ¬ ((Text.ofNat n).head? = some '0' ∧ (Text.ofNat n).length ≠ 1) := by
    rintro ⟨hhead, hlength⟩
    by_cases hn : n = 0
    · subst hn
      exact hlength rfl
    · exact head?_ofNat hn hhead
  rw [natural?, if_neg hzeros, Text.digits?_ofNat]

/-- A written integer is read back, with its sign. -/
theorem integer?_ofInt (i : Int) : integer? (Text.ofInt i) = some i := by
  unfold Text.ofInt Text.signOf
  split
  · show (natural? (Text.ofNat i.natAbs)).map (fun n : Nat => -(n : Int)) = some i
    rw [natural?_ofNat, Option.map_some]
    congr 1
    omega
  · obtain ⟨c, text, h⟩ := List.exists_cons_of_ne_nil (l := Text.ofNat i.natAbs) Nat.toDigits_ne_nil
    have hdigit : c.isDigit = true := by
      have hall := Text.all_isDigit_ofNat i.natAbs
      rw [h, List.all_cons, Bool.and_eq_true] at hall
      exact hall.1
    have hread : integer? (c :: text) = (natural? (c :: text)).map Int.ofNat := by
      unfold integer?
      split
      · rename_i heq
        rw [(List.cons.inj heq).1] at hdigit
        cases hdigit
      · rfl
    rw [List.nil_append, h, hread, ← h, natural?_ofNat]
    exact congrArg some (Int.natAbs_of_nonneg (by omega))

/-- All characters of a written integer belong to one word. -/
theorem isWordChar_of_mem_ofInt {i : Int} {c : Char} (h : c ∈ Text.ofInt i) :
    isWordChar c = true := by
  obtain hsign | hdigit := List.mem_append.1 h
  · unfold Text.signOf at hsign
    split at hsign
    · obtain rfl := List.mem_singleton.1 hsign
      rfl
    · cases hsign
  · exact isWordChar_of_isDigit (List.all_eq_true.1 (Text.all_isDigit_ofNat i.natAbs) c hdigit)

/-- A written integer is not empty. -/
theorem ofInt_ne_nil (i : Int) : Text.ofInt i ≠ [] := by
  intro h
  exact Nat.toDigits_ne_nil (List.append_eq_nil_iff.1 h).2

/-- An integer is read back as a number, whatever ends its word. -/
theorem value?_ofInt (i : Int) {rest : Text} (hrest : EndsWord rest) (depth : Nat) :
    value? (depth + 1) (Text.ofInt i ++ rest) = some (.number i, rest) := by
  have hword : word? (Text.ofInt i) = some (.number i) := by
    rw [word?, integer?_ofInt]
  exact value?_of_word (ofInt_ne_nil i) (fun c => isWordChar_of_mem_ofInt) hword hrest depth

/-! ## Lists and objects -/

/-- The part at the head of a list is read, whatever stands behind it that is no part of a word. -/
def ReadsBack {α : Type} (part? : Text → Option (α × Text)) (write : α → Text) (part : α) : Prop :=
  ∀ rest, EndsWord rest → part? (write part ++ rest) = some (part, rest)

/-- A character that belongs to no word ends one. -/
theorem endsWord_cons {c : Char} (h : isWordChar c = false) (rest : Text) :
    EndsWord (c :: rest) := by
  rintro _ ⟨⟩
  exact h

/-- A word ends at a new line, and without new lines where it ends anyway. -/
theorem endsWord_newLine (layout : Layout) (level : Nat) {rest : Text} (h : EndsWord rest) :
    EndsWord (layout.newLine level ++ rest) := by
  cases layout with
  | compact => exact h
  | spread => exact endsWord_cons rfl _

section Parts

variable {α : Type} {part? : Text → Option (α × Text)} {write : α → Text} {close : Char}

/-- Parts with commas in front of all but the first one are read up to the closing sign. -/
theorem parts?_flatMap (hcomma : close ≠ ',') (hclose : isWordChar close = false)
    (hblank : isBlank close = false) (layout : Layout) (level : Nat) {first : α} {others : List α}
    (hparts : ∀ part ∈ first :: others, ReadsBack part? write part) {steps : Nat}
    (hsteps : others.length < steps) (rest : Text) :
    parts? part? close steps (write first ++ (others.flatMap (fun part => ',' :: write part) ++
      (layout.newLine level ++ close :: rest))) = some (first :: others, rest) := by
  induction others generalizing first steps with
  | nil =>
    obtain ⟨steps, rfl⟩ := Nat.exists_eq_add_of_lt hsteps
    have hends : EndsWord (layout.newLine level ++ close :: rest) :=
      endsWord_newLine layout level (endsWord_cons hclose rest)
    have hskip : skipBlanks (layout.newLine level ++ close :: rest) = close :: rest := by
      rw [skipBlanks_newLine, skipBlanks_of_not_isBlank hblank]
    rw [List.flatMap_nil, List.nil_append, parts?, hparts first List.mem_cons_self _ hends]
    simp only [hskip, if_true]
  | cons next others ih =>
    obtain ⟨hfirst, hrest⟩ := List.forall_mem_cons.1 hparts
    obtain ⟨more, rfl⟩ := Nat.exists_eq_add_of_lt hsteps
    have hothers := @ih next hrest (others.length + 1 + more) (by omega)
    have hskip : ∀ text, skipBlanks (',' :: text) = ',' :: text := fun _ => rfl
    rw [List.flatMap_cons, List.append_assoc, List.cons_append, List.length_cons, parts?,
      hfirst _ (endsWord_cons rfl _)]
    simp only [hskip, if_neg hcomma.symm, if_true, hothers, Option.map_some]

/-- A list that is not empty is read up to its closing sign, if its first part does not start like
the closing sign. -/
theorem list?_flatMap (hcomma : close ≠ ',') (hclose : isWordChar close = false)
    (hblank : isBlank close = false) (layout : Layout) (level : Nat) {first : α} {others : List α}
    (hparts : ∀ part ∈ first :: others, ReadsBack part? write part)
    (hstart : ∀ rest, ∃ c more, skipBlanks (write first ++ rest) = c :: more ∧ c ≠ close)
    (rest : Text) :
    list? part? close (write first ++ (others.flatMap (fun part => ',' :: write part) ++
      (layout.newLine level ++ close :: rest))) = some (first :: others, rest) := by
  have hnonempty : ∀ part, ',' :: write part ≠ [] := fun part => List.cons_ne_nil _ _
  have hlength := Toml.length_le_length_flatMap hnonempty others
  obtain ⟨c, more, hskip, hne⟩ := hstart (others.flatMap (fun part => ',' :: write part) ++
    (layout.newLine level ++ close :: rest))
  rw [list?, hskip]
  simp only [if_neg hne]
  apply parts?_flatMap hcomma hclose hblank layout level hparts
  simp only [List.length_append, List.length_cons]
  omega

/-- A part is no longer than what is written of the list. -/
theorem length_le_of_mem {part first : α} {others : List α} (h : part ∈ first :: others) :
    (write part).length ≤
      (write first ++ others.flatMap fun part => ',' :: write part).length := by
  rw [List.length_append]
  obtain rfl | hmem := List.mem_cons.1 h
  · exact Nat.le_add_right _ _
  · have hinfix : ',' :: write part <:+: others.flatMap fun part => ',' :: write part := by
      rw [List.flatMap_def]
      exact List.infix_of_mem_flatten (List.mem_map_of_mem hmem)
    have hle := hinfix.length_le
    rw [List.length_cons] at hle
    omega

end Parts

/-! ## Values -/

/-- An item as it stands in a list. -/
def writtenItem (layout : Layout) (level : Nat) (item : Json) : Text :=
  layout.newLine level ++ write layout (level + 1) item

/-- A member as it stands in an object. -/
def writtenMember (layout : Layout) (level : Nat) (entry : Text × Json) : Text :=
  layout.newLine level ++ (quoted entry.1 ++ (layout.colon ++ write layout (level + 1) entry.2))

/-- An array that is not empty is written as its items, each behind the first after a comma. -/
theorem write_array (layout : Layout) (level : Nat) (item : Json) (items : List Json) :
    write layout level (.array (item :: items)) =
      '[' :: (writtenItem layout level item ++
        (items.flatMap (fun item => ',' :: writtenItem layout level item) ++
          (layout.newLine (level - 1) ++ [']']))) := by
  have hitems : ∀ items, writeItems layout level items =
      items.flatMap (fun item => ',' :: writtenItem layout level item) ++
        (layout.newLine (level - 1) ++ [']']) := by
    intro items
    induction items with
    | nil => rfl
    | cons item items ih => simp [writeItems, writtenItem, ih]
  simp [write, writtenItem, hitems]

/-- An object that is not empty is written as its members, each behind the first after a comma. -/
theorem write_object (layout : Layout) (level : Nat) (entry : Text × Json)
    (members : List (Text × Json)) :
    write layout level (.object (entry :: members)) =
      '{' :: (writtenMember layout level entry ++
        (members.flatMap (fun entry => ',' :: writtenMember layout level entry) ++
          (layout.newLine (level - 1) ++ ['}']))) := by
  have hmembers : ∀ members, writeMembers layout level members =
      members.flatMap (fun entry => ',' :: writtenMember layout level entry) ++
        (layout.newLine (level - 1) ++ ['}']) := by
    intro members
    induction members with
    | nil => rfl
    | cons entry members ih => simp [writeMembers, writtenMember, ih]
  obtain ⟨name, value⟩ := entry
  simp [write, writtenMember, hmembers]

/-- A value starts with a character that is no blank and closes nothing. -/
theorem exists_write_eq_cons (layout : Layout) (level : Nat) (json : Json) :
    ∃ c more, write layout level json = c :: more ∧ isBlank c = false ∧ c ≠ ']' := by
  cases json with
  | null => exact ⟨_, _, rfl, rfl, by decide⟩
  | bool value => cases value <;> exact ⟨_, _, rfl, rfl, by decide⟩
  | number value =>
    obtain ⟨c, more, h⟩ := List.exists_cons_of_ne_nil (ofInt_ne_nil value)
    have hc : isWordChar c = true := isWordChar_of_mem_ofInt (h ▸ List.mem_cons_self)
    exact ⟨c, more, h, isBlank_of_isWordChar hc, ne_of_isWordChar hc rfl⟩
  | string value => exact ⟨_, _, rfl, rfl, by decide⟩
  | array items => cases items <;> exact ⟨_, _, rfl, rfl, by decide⟩
  | object members =>
    rcases members with _ | ⟨⟨name, value⟩, members⟩ <;> exact ⟨_, _, rfl, rfl, by decide⟩

/-- A written item does not look like the end of its array. -/
theorem skipBlanks_writtenItem (layout : Layout) (level : Nat) (item : Json) (rest : Text) :
    ∃ c more, skipBlanks (writtenItem layout level item ++ rest) = c :: more ∧ c ≠ ']' := by
  obtain ⟨c, more, hwritten, hblank, hne⟩ := exists_write_eq_cons layout (level + 1) item
  refine ⟨c, more ++ rest, ?_, hne⟩
  rw [writtenItem, List.append_assoc, skipBlanks_newLine, hwritten, List.cons_append,
    skipBlanks_of_not_isBlank hblank]

/-- A written member begins with the quote of its name. -/
theorem skipBlanks_writtenMember (layout : Layout) (level : Nat) (entry : Text × Json)
    (rest : Text) :
    skipBlanks (writtenMember layout level entry ++ rest) =
      '"' :: (entry.1.flatMap escape ++
        '"' :: (layout.colon ++ write layout (level + 1) entry.2 ++ rest)) := by
  rw [writtenMember, List.append_assoc, skipBlanks_newLine]
  simp [quoted, skipBlanks, isBlank]

/-- The blank behind a colon makes no difference to the value behind it. -/
theorem value?_colon (layout : Layout) (depth : Nat) (text : Text) :
    value? depth (layout.colon ++ text).tail = value? depth text := by
  cases layout with
  | compact => rfl
  | spread => exact value?_skipBlanks depth (show skipBlanks ([' '] ++ text) = _ from rfl)

/-- An item is read back if its value is, whatever stands in front of it on its line. -/
theorem readsBack_writtenItem {layout : Layout} {level depth : Nat} {item : Json}
    (h : ReadsBack (value? depth) (write layout (level + 1)) item) :
    ReadsBack (value? depth) (writtenItem layout level) item := by
  intro rest hrest
  rw [writtenItem, List.append_assoc, value?_skipBlanks depth (skipBlanks_newLine layout level _)]
  exact h rest hrest

/-- A member is read back, with its name, if its value is. -/
theorem readsBack_writtenMember {layout : Layout} {level depth : Nat} {entry : Text × Json}
    (h : ReadsBack (value? depth) (write layout (level + 1)) entry.2) :
    ReadsBack (member? (value? depth)) (writtenMember layout level) entry := by
  intro rest hrest
  have hvalue := h rest hrest
  rw [member?, skipBlanks_writtenMember]
  simp only [string?_flatMap_escape, List.append_assoc, skipBlanks_colon, value?_colon, hvalue,
    Option.map_some]

/-- Every value is read back from what is written, if the reader may go as deep as that is long. -/
theorem value?_write (layout : Layout) {depth level : Nat} {json : Json}
    (h : (write layout level json).length ≤ depth) :
    ReadsBack (value? depth) (write layout level) json := by
  induction depth generalizing level json with
  | zero =>
    obtain ⟨c, more, hwritten, -⟩ := exists_write_eq_cons layout level json
    simp [hwritten] at h
  | succ depth ih =>
    intro rest hrest
    cases json with
    | null =>
      show value? (depth + 1) ("null".toList ++ rest) = _
      exact value?_of_word (by decide) (List.all_eq_true.1 rfl) rfl hrest depth
    | bool value =>
      cases value with
      | false =>
        show value? (depth + 1) ("false".toList ++ rest) = _
        exact value?_of_word (by decide) (List.all_eq_true.1 rfl) rfl hrest depth
      | true =>
        show value? (depth + 1) ("true".toList ++ rest) = _
        exact value?_of_word (by decide) (List.all_eq_true.1 rfl) rfl hrest depth
    | number value => exact value?_ofInt value hrest depth
    | string value =>
      have hstring := string?_flatMap_escape value rest
      have hskip : ∀ text, skipBlanks ('"' :: text) = '"' :: text := fun _ => rfl
      simp only [write, quoted, List.cons_append, List.append_assoc, List.nil_append, value?,
        hskip, hstring, Option.map_some]
    | array items =>
      cases items with
      | nil => rfl
      | cons item items =>
        rw [write_array] at h ⊢
        have hitems : ∀ part ∈ item :: items,
            ReadsBack (value? depth) (writtenItem layout level) part := by
          intro part hpart
          apply readsBack_writtenItem
          apply ih
          have hle : (writtenItem layout level part).length ≤ _ := length_le_of_mem hpart
          simp only [List.length_cons, List.length_append, writtenItem] at h hle ⊢
          omega
        have hlist := list?_flatMap (by decide) rfl rfl layout (level - 1) hitems
          (skipBlanks_writtenItem layout level item) rest
        have hskip : ∀ text, skipBlanks ('[' :: text) = '[' :: text := fun _ => rfl
        simp only [List.cons_append, List.append_assoc, List.nil_append, value?, hskip, hlist,
          Option.map_some]
    | object members =>
      cases members with
      | nil => rfl
      | cons entry members =>
        rw [write_object] at h ⊢
        have hmembers : ∀ part ∈ entry :: members,
            ReadsBack (member? (value? depth)) (writtenMember layout level) part := by
          intro part hpart
          apply readsBack_writtenMember
          apply ih
          have hle : (writtenMember layout level part).length ≤ _ := length_le_of_mem hpart
          simp only [List.length_cons, List.length_append, writtenMember] at h hle ⊢
          omega
        have hstart : ∀ rest, ∃ c more,
            skipBlanks (writtenMember layout level entry ++ rest) = c :: more ∧ c ≠ '}' :=
          fun rest => ⟨_, _, skipBlanks_writtenMember layout level entry rest, by decide⟩
        have hlist := list?_flatMap (by decide) rfl rfl layout (level - 1) hmembers hstart rest
        have hskip : ∀ text, skipBlanks ('{' :: text) = '{' :: text := fun _ => rfl
        simp only [List.cons_append, List.append_assoc, List.nil_append, value?, hskip, hlist,
          Option.map_some]

/-- Every value is read back from its text. -/
theorem read?_text (layout : Layout) (json : Json) : read? (json.text layout) = some json := by
  have hends : EndsWord [] := by simp [EndsWord]
  have hvalue := value?_write layout (le_refl (write layout 1 json).length) [] hends
  rw [List.append_nil] at hvalue
  rw [read?, text, hvalue]
  rfl

end Json

end EventFinder
