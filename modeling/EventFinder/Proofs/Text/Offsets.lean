import EventFinder.Text.Search

/-!
# Byte offsets

A text can be cut at an offset that is counted in bytes, as long as a character starts there or the
text ends there; everywhere else a cut would go through the middle of a character. `splitAt?` and
`slice?` cut in this way and give `none` where that cannot be done. The lengths of the parts of a
text are offsets at which it can be cut, and there are no others (`splitAt?_eq_some_iff`,
`slice?_eq_some_iff`).
-/

set_option autoImplicit false

namespace EventFinder

namespace Text

/-- The empty text has no bytes. -/
@[simp] theorem byteLength_nil : byteLength [] = 0 :=
  rfl

/-- The first character adds its size. -/
@[simp] theorem byteLength_cons (c : Char) (text : Text) :
    byteLength (c :: text) = c.utf8Size + byteLength text :=
  rfl

/-- The bytes of two texts add up. -/
@[simp] theorem byteLength_append (first second : Text) :
    byteLength (first ++ second) = byteLength first + byteLength second := by
  induction first with
  | nil => simp
  | cons c first ih => simp [ih, Nat.add_assoc]

/-- A text that is not empty has bytes. -/
theorem byteLength_pos {text : Text} (h : text ≠ []) : 0 < byteLength text := by
  obtain ⟨c, text, rfl⟩ := List.exists_cons_of_ne_nil h
  have := c.utf8Size_pos
  rw [byteLength_cons]
  omega

/-- The parts of the text before and from an offset, if no character reaches over it. -/
def splitAt? : Nat → Text → Option (Text × Text)
  | 0, text => some ([], text)
  | _ + 1, [] => none
  | offset + 1, c :: text =>
    if c.utf8Size ≤ offset + 1 then
      (splitAt? (offset + 1 - c.utf8Size) text).map (consBefore c)
    else none

/-- The part of the text between two offsets, if they are in this order and no character reaches
over one of them. -/
def slice? (text : Text) (start stop : Nat) : Option Text :=
  (splitAt? stop text).bind fun parts => (splitAt? start parts.1).map Prod.snd

/-- A text is split at the end of its first part. -/
theorem splitAt?_append (before rest : Text) :
    splitAt? before.byteLength (before ++ rest) = some (before, rest) := by
  induction before with
  | nil => simp [splitAt?]
  | cons c before ih =>
    obtain ⟨size, hsize⟩ : ∃ size, byteLength (c :: before) = size + 1 :=
      ⟨_, (Nat.succ_pred_eq_of_pos (byteLength_pos (List.cons_ne_nil c before))).symm⟩
    have hle : c.utf8Size ≤ size + 1 := by
      rw [← hsize, byteLength_cons]
      omega
    have hrest : size + 1 - c.utf8Size = byteLength before := by
      rw [← hsize, byteLength_cons]
      omega
    rw [hsize, List.cons_append, splitAt?, if_pos hle, hrest, ih]
    rfl

/-- A text is cut between two parts exactly at the length of the first one. -/
theorem splitAt?_eq_some_iff {offset : Nat} {text before rest : Text} :
    splitAt? offset text = some (before, rest) ↔
      text = before ++ rest ∧ offset = before.byteLength := by
  constructor
  · intro h
    fun_induction splitAt? offset text generalizing before with
    | case1 text =>
      cases h
      exact ⟨rfl, rfl⟩
    | case2 => cases h
    | case3 offset c text hle ih =>
      obtain ⟨⟨b, r⟩, hparts, heq⟩ := Option.map_eq_some_iff.1 h
      simp only [consBefore, Prod.mk.injEq] at heq
      obtain ⟨rfl, rfl⟩ := heq
      obtain ⟨rfl, hoffset⟩ := ih hparts
      refine ⟨rfl, ?_⟩
      rw [byteLength_cons]
      omega
    | case4 => cases h
  · rintro ⟨rfl, rfl⟩
    exact splitAt?_append before rest

/-- What is between two offsets is a part of the text, with what is before it and behind it. -/
theorem slice?_eq_some_iff {text middle : Text} {start stop : Nat} :
    slice? text start stop = some middle ↔
      ∃ before rest, text = before ++ middle ++ rest ∧ start = before.byteLength ∧
        stop = (before ++ middle).byteLength := by
  simp only [slice?, Option.bind_eq_some_iff, Option.map_eq_some_iff, Prod.exists,
    splitAt?_eq_some_iff]
  constructor
  · rintro ⟨_, rest, ⟨rfl, rfl⟩, before, _, ⟨rfl, rfl⟩, rfl⟩
    exact ⟨before, rest, rfl, rfl, rfl⟩
  · rintro ⟨before, rest, rfl, rfl, rfl⟩
    exact ⟨_, rest, ⟨rfl, rfl⟩, before, middle, ⟨rfl, rfl⟩, rfl⟩

/-- The euro sign takes three bytes, and a text can be cut before and behind it only. -/
example : splitAt? 1 "a€b".toList = some (['a'], ['€', 'b']) ∧ splitAt? 2 "a€b".toList = none ∧
    slice? "a€b".toList 1 4 = some ['€'] := by
  decide

end Text

end EventFinder
