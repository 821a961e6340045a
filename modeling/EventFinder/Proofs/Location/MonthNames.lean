import Mathlib.Data.List.Basic
import EventFinder.Location.Month

/-!
# Month names in any letter case

A text names a month if it is the English name of the month once both are in lower case
(`Month.IsName`). Which characters have which lower-case forms changes from one version of Unicode
to the next, but never for the letters of the twelve names: `LowerCase` holds what every version
says of the forms in which one of the letters from a to z occurs, and by any of them the same texts
are month names (`Month.number?_eq_some_iff`).
-/

set_option autoImplicit false

namespace EventFinder

/-- The lower-case forms of characters in a version of Unicode. A form can have several characters:
that of the letter I with a dot above is the letter i and a combining dot. -/
structure LowerCase where
  form : Char → Text
  form_ascii : ∀ c, c.toNat < 0x80 → form c = [c.toLower]
  /-- The Kelvin sign is a letter K of its own. -/
  form_kelvin : form '\u212A' = ['k']
  /-- No other form is ASCII alone. -/
  form_foreign : ∀ c, 0x80 ≤ c.toNat → c ≠ '\u212A' → ∃ d ∈ form c, 0x80 ≤ d.toNat

/-- A character beyond ASCII is its own lower case to `Char.toLower`, which knows ASCII only. -/
theorem toLower_of_foreign {c : Char} (h : 0x80 ≤ c.toNat) : c.toLower = c := by
  unfold Char.toLower
  split
  · rename_i hupper
    have hle : c.toNat ≤ 'Z'.toNat := UInt32.le_iff_toNat_le.1 hupper.2
    exact absurd (Nat.le_trans h hle) (by decide)
  · rfl

namespace LowerCase

/-- A text in lower case. -/
def lower (cases : LowerCase) (text : Text) : Text :=
  text.flatMap cases.form

/-- The forms in a version of Unicode that knows no letters but those from a to z, the Kelvin sign
and the letter I with a dot above. -/
def fewest : LowerCase where
  form c :=
    if c = '\u212A' then ['k'] else if c = '\u0130' then ['i', '\u0307'] else [c.toLower]
  form_ascii c h := by
    have hkelvin : c ≠ '\u212A' := by
      rintro rfl
      exact absurd h (by decide)
    have hdotted : c ≠ '\u0130' := by
      rintro rfl
      exact absurd h (by decide)
    rw [if_neg hkelvin, if_neg hdotted]
  form_kelvin := rfl
  form_foreign c h hkelvin := by
    rw [if_neg hkelvin]
    split
    · exact ⟨'\u0307', by simp, by decide⟩
    · exact ⟨c, by simp [toLower_of_foreign h], h⟩

end LowerCase

namespace Month

/-- A text is the full English name of a month, from 1 to 12, in some letter case. -/
def IsName (cases : LowerCase) (name : Text) (number : Nat) : Prop :=
  ∃ full, name? number = some full ∧ cases.lower name = full.map Char.toLower

/-- The letters that the lower-case forms of a month name consist of. -/
def IsPlainLetter (c : Char) : Prop :=
  c.toNat < 0x80 ∧ c ≠ 'k'

/-- Both conditions are tested. -/
instance (c : Char) : Decidable (IsPlainLetter c) :=
  inferInstanceAs (Decidable (_ ∧ _))

/-- ASCII letters are folded to their lower case. -/
theorem foldCase_of_ascii {c : Char} (h : c.toNat < 0x80) : foldCase c = c.toLower := by
  unfold foldCase
  split
  · rename_i hkelvin
    subst hkelvin
    exact absurd h (by decide)
  · rfl

/-- Only ASCII characters fold to the letters of month names. -/
theorem ascii_of_foldCase {c : Char} (h : IsPlainLetter (foldCase c)) : c.toNat < 0x80 := by
  obtain ⟨hascii, hk⟩ := h
  by_contra hforeign
  unfold foldCase at hascii hk
  split at hascii
  · rename_i hkelvin
    rw [if_pos hkelvin] at hk
    exact hk rfl
  · rw [toLower_of_foreign (by omega)] at hascii
    exact hforeign hascii

/-- Only an ASCII character has a lower case of plain letters. -/
theorem ascii_of_form {cases : LowerCase} {c : Char}
    (h : ∀ d ∈ cases.form c, IsPlainLetter d) : c.toNat < 0x80 := by
  by_contra hforeign
  by_cases hkelvin : c = '\u212A'
  · subst hkelvin
    exact (h 'k' (by simp [cases.form_kelvin])).2 rfl
  · obtain ⟨d, hd, hle⟩ := cases.form_foreign c (by omega) hkelvin
    have := (h d hd).1
    omega

/-- A text is in lower case what it folds to, as long as that has no letter but those of month
names. -/
theorem lower_eq_iff {cases : LowerCase} {name full : Text} (hfull : ∀ c ∈ full, IsPlainLetter c) :
    cases.lower name = full ↔ name.map foldCase = full := by
  have hsame : (∀ c ∈ name, c.toNat < 0x80) → cases.lower name = name.map foldCase := by
    intro hascii
    rw [LowerCase.lower, ← List.flatMap_singleton' (name.map foldCase), List.flatMap_map]
    refine List.flatMap_congr fun c hc => ?_
    rw [cases.form_ascii c (hascii c hc), foldCase_of_ascii (hascii c hc)]
  constructor
  · intro h
    rw [← h, hsame]
    intro c hc
    refine @ascii_of_form cases c fun d hd => hfull d ?_
    rw [← h]
    exact List.mem_flatMap.2 ⟨c, hc, hd⟩
  · intro h
    rw [← h, hsame]
    intro c hc
    refine ascii_of_foldCase (hfull _ ?_)
    rw [← h]
    exact List.mem_map_of_mem hc

/-! ## The number of a month name -/

/-- The names of the months in lower case consist of ASCII letters, but no k. -/
theorem isPlainLetter_of_mem_names :
    ∀ full ∈ names, full.map foldCase = full.map Char.toLower ∧
      ∀ c ∈ full.map Char.toLower, IsPlainLetter c := by
  have hall : (names.all fun full => decide (full.map foldCase = full.map Char.toLower) &&
      (full.map Char.toLower).all fun c => decide (IsPlainLetter c)) = true := by
    decide
  intro full hfull
  have hnames := List.all_eq_true.1 hall full hfull
  simpa only [Bool.and_eq_true, decide_eq_true_eq, List.all_eq_true] using hnames

/-- The names are counted from one. -/
theorem name?_eq_some_iff {number : Nat} {full : Text} :
    name? number = some full ↔ ∃ index, number = index + 1 ∧ names[index]? = some full := by
  cases number with
  | zero => simp [name?]
  | succ index =>
    have hle : (1 : Int) ≤ (index : Int) + 1 := by omega
    simp [name?, hle]

/-- Different months have names that differ not only in letter case. -/
theorem nodup_folded_names : (names.map (List.map foldCase)).Nodup := by
  decide

/-- A month is found exactly by its full name in any letter case. -/
theorem number?_eq_some_iff (cases : LowerCase) {name : Text} {number : Nat} :
    number? name = some number ↔ IsName cases name number := by
  have hfull : ∀ full ∈ names, (sameLetters name full = true ↔
      cases.lower name = full.map Char.toLower) := by
    intro full hmem
    obtain ⟨hfold, hplain⟩ := isPlainLetter_of_mem_names full hmem
    rw [lower_eq_iff hplain, ← hfold, sameLetters, beq_iff_eq]
  simp only [number?, Option.map_eq_some_iff, List.findIdx?_eq_some_iff_getElem, IsName,
    name?_eq_some_iff]
  constructor
  · rintro ⟨index, ⟨hlt, hsame, -⟩, rfl⟩
    refine ⟨names[index], ⟨index, rfl, List.getElem?_eq_getElem hlt⟩, ?_⟩
    exact (hfull _ (List.getElem_mem hlt)).1 hsame
  · rintro ⟨full, ⟨index, rfl, hindex⟩, hlower⟩
    obtain ⟨hlt, rfl⟩ := List.getElem?_eq_some_iff.1 hindex
    have hsame := (hfull _ (List.getElem_mem hlt)).2 hlower
    refine ⟨index, ⟨hlt, hsame, fun earlier hearlier => ?_⟩, rfl⟩
    intro hother
    have hfolded : (names[earlier].map foldCase) = names[index].map foldCase :=
      (beq_iff_eq.1 hother).symm.trans (beq_iff_eq.1 hsame)
    have hne := List.pairwise_iff_getElem.1 nodup_folded_names earlier index
      (by rw [List.length_map]; omega) (by rw [List.length_map]; omega) hearlier
    rw [List.getElem_map, List.getElem_map] at hne
    exact hne hfolded

end Month

end EventFinder
