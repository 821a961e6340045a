import EventFinder.Text.Number
import Mathlib.Data.List.Induction

/-!
# Numerals

What a text of digits means as a number, said by its last digit and the text in front of it, and
what a sign in front of it adds. The readers of decimal numbers read exactly these numerals
(`digits?_eq_some_iff`, `int?_eq_some_iff`): any number of leading zeros, at most one sign, nothing
but ASCII digits behind it.
-/

set_option autoImplicit false

namespace EventFinder

/-- The numbers that fit are those of the signed integers of 64 bits. -/
theorem fits64_iff {i : Int} :
    fits64 i = true ↔ Int64.minValue.toInt ≤ i ∧ i ≤ Int64.maxValue.toInt := by
  have hmin : Int64.minValue.toInt = -9223372036854775808 := rfl
  have hmax : Int64.maxValue.toInt = 9223372036854775807 := rfl
  simp only [fits64, Bool.and_eq_true, decide_eq_true_eq, hmin, hmax]

namespace Text

/-- The number that a run of decimal digits denotes: a digit behind other digits counts once, and
what stands in front of it counts ten times. -/
inductive DigitRun : Text → Nat → Prop where
  | digit {c : Char} (hdigit : c.isDigit = true) : DigitRun [c] (c.toNat - '0'.toNat)
  | behind {text : Text} {n : Nat} {c : Char} (hrun : DigitRun text n) (hdigit : c.isDigit = true) :
    DigitRun (text ++ [c]) (10 * n + (c.toNat - '0'.toNat))

/-- The number that a run of digits with at most one sign in front of it denotes. -/
inductive Numeral : Text → Int → Prop where
  | unsigned {text : Text} {n : Nat} (hrun : DigitRun text n) : Numeral text n
  | plus {text : Text} {n : Nat} (hrun : DigitRun text n) : Numeral ('+' :: text) n
  | minus {text : Text} {n : Nat} (hrun : DigitRun text n) : Numeral ('-' :: text) (-n)

/-! ## Runs of digits -/

/-- One digit is read as its value. -/
theorem digits?_singleton {c : Char} (hdigit : c.isDigit = true) :
    digits? [c] = some (c.toNat - '0'.toNat) := by
  simp [digits?, hdigit, Nat.ofDigitChars_cons, Nat.ofDigitChars_nil]

/-- One digit more makes a number ten times as large and adds its value. -/
theorem digits?_append_singleton {text : Text} {c : Char} {n : Nat} (hne : text ≠ []) :
    digits? (text ++ [c]) = some n ↔
      c.isDigit = true ∧ ∃ m, digits? text = some m ∧ n = 10 * m + (c.toNat - '0'.toNat) := by
  have hvalue : Nat.ofDigitChars 10 (text ++ [c]) 0 =
      10 * Nat.ofDigitChars 10 text 0 + (c.toNat - '0'.toNat) := by
    rw [Nat.ofDigitChars_append, Nat.ofDigitChars_cons, Nat.ofDigitChars_nil]
  simp only [digits?, hvalue, hne, ne_eq, List.append_eq_nil_iff, false_and, not_false_eq_true,
    true_and, List.all_append, List.all_cons, List.all_nil, Bool.and_true, Bool.and_eq_true]
  by_cases hall : text.all Char.isDigit = true
  · by_cases hdigit : c.isDigit = true <;> simp [hall, hdigit, eq_comm]
  · simp [hall]

/-- A run of digits has at least one. -/
theorem DigitRun.ne_nil {text : Text} {n : Nat} (h : DigitRun text n) : text ≠ [] := by
  cases h <;> simp

/-- Runs of digits are read as the numbers that they denote, and nothing else is read. -/
theorem digits?_eq_some_iff {text : Text} {n : Nat} : digits? text = some n ↔ DigitRun text n := by
  constructor
  · intro h
    -- From the end, as runs are built. An accumulator from the front would need an invariant.
    induction text using List.reverseRecOn generalizing n with
    | nil => simp [digits?] at h
    | append_singleton text c ih =>
      obtain rfl | hne := eq_or_ne text []
      · have hdigit : c.isDigit = true := by
          by_contra hdigit
          simp [digits?, hdigit] at h
        rw [List.nil_append, digits?_singleton hdigit] at h
        cases h
        exact .digit hdigit
      · obtain ⟨hdigit, m, hm, rfl⟩ := (digits?_append_singleton hne).1 h
        exact .behind (ih hm) hdigit
  · intro h
    induction h with
    | digit hdigit => exact digits?_singleton hdigit
    | behind hrun hdigit ih =>
      exact (digits?_append_singleton hrun.ne_nil).2 ⟨hdigit, _, ih, rfl⟩

/-- A run of digits starts with one. -/
theorem DigitRun.isDigit_head {c : Char} {text : Text} {n : Nat} (h : DigitRun (c :: text) n) :
    c.isDigit = true := by
  have hread := digits?_eq_some_iff.2 h
  simp only [digits?, Option.ite_none_right_eq_some, List.all_cons, Bool.and_eq_true] at hread
  exact hread.1.2.1

/-! ## Signs -/

/-- Numerals are read as the numbers that they denote, and nothing else is read. -/
theorem int?_eq_some_iff {text : Text} {i : Int} : int? text = some i ↔ Numeral text i := by
  constructor
  · intro h
    unfold int? at h
    split at h
    all_goals
      simp only [Option.map_eq_some_iff, Option.bind_eq_bind, Option.bind_eq_some_iff,
        Option.pure_def, Option.some.injEq] at h
      obtain ⟨_, ⟨n, hn, rfl⟩, rfl⟩ := h
      have hrun := digits?_eq_some_iff.1 hn
    · exact .minus hrun
    · exact .plus hrun
    · exact .unsigned hrun
  · rintro (hrun | hrun | hrun)
    · -- The reader looks for a sign first, and a digit is none.
      obtain ⟨c, rest, rfl⟩ := List.exists_cons_of_ne_nil hrun.ne_nil
      simp [int?_of_isDigit hrun.isDigit_head, digits?_eq_some_iff.2 hrun]
    · simp [int?, digits?_eq_some_iff.2 hrun]
    · simp [int?, digits?_eq_some_iff.2 hrun]

/-- What is stored of a numeral is the number that it denotes, if that fits. -/
theorem int64?_eq_some_iff {text : Text} {i : Int} :
    int64? text = some i ↔
      Numeral text i ∧ Int64.minValue.toInt ≤ i ∧ i ≤ Int64.maxValue.toInt := by
  rw [int64?, Option.filter_eq_some_iff, int?_eq_some_iff, fits64_iff]

end Text

end EventFinder
