import EventFinder.Text

/-!
# Decimal numbers

Numbers are written in decimal with a minus sign in front of negative ones. They are read back in
two ways: `digits?` takes ASCII digits only, `int?` takes one sign in front of them as well; both
take leading zeros. Stored numbers are 64 bits wide, and `int64?` refuses what does not fit.

The main statements are `digits?_ofNat` and `int?_ofInt`: what is written is read back.
-/

set_option autoImplicit false

namespace EventFinder

/-- Whether a number can be stored in 64 bits, one of them for the sign. -/
def fits64 (i : Int) : Bool :=
  -9223372036854775808 ≤ i && i ≤ 9223372036854775807

namespace Text

/-- A natural number in decimal, without leading zeros. -/
def ofNat (n : Nat) : Text :=
  Nat.toDigits 10 n

/-- The sign that is written in front of a number. -/
def signOf (i : Int) : Text :=
  if i < 0 then ['-'] else []

/-- A number in decimal, without leading zeros. -/
def ofInt (i : Int) : Text :=
  signOf i ++ ofNat i.natAbs

/-- A number in decimal with zeros between its sign and its digits, so that it takes at least
`width` characters, the sign counted. -/
def zeroPadded (width : Nat) (i : Int) : Text :=
  signOf i ++ List.replicate (width - (ofInt i).length) '0' ++ ofNat i.natAbs

/-- The number that a run of ASCII digits denotes, whatever its length. -/
def digits? (text : Text) : Option Nat :=
  if text ≠ [] ∧ text.all Char.isDigit then some (Nat.ofDigitChars 10 text 0) else none

/-- The number that ASCII digits with at most one sign in front of them denote. -/
def int? : Text → Option Int
  | '-' :: text => (digits? text).map fun n => -(n : Int)
  | '+' :: text => (digits? text).map fun n => (n : Int)
  | text => (digits? text).map fun n => (n : Int)

/-- The number that the text denotes, if it fits in 64 bits. -/
def int64? (text : Text) : Option Int :=
  (int? text).filter fits64

/-- A written number has digits only. -/
theorem all_isDigit_ofNat (n : Nat) : (ofNat n).all Char.isDigit = true := by
  simp only [List.all_eq_true]
  intro c hc
  exact Nat.isDigit_of_mem_toDigits (by decide) (by decide) hc

/-- A written natural number reads back. -/
theorem digits?_ofNat (n : Nat) : digits? (ofNat n) = some n := by
  have hne : ofNat n ≠ [] := Nat.toDigits_ne_nil
  have hval : Nat.ofDigitChars 10 (ofNat n) 0 = n :=
    Nat.ofDigitChars_toDigits (by decide) (by decide)
  simp [digits?, hne, all_isDigit_ofNat, hval]

/-- A text that starts with a digit has no sign. -/
theorem int?_of_isDigit {c : Char} {text : Text} (h : c.isDigit = true) :
    int? (c :: text) = (digits? (c :: text)).map fun n => (n : Int) := by
  unfold int?
  split
  · rename_i heq
    simp only [List.cons.injEq] at heq
    exact absurd (heq.1 ▸ h) (by decide)
  · rename_i heq
    simp only [List.cons.injEq] at heq
    exact absurd (heq.1 ▸ h) (by decide)
  · rfl

/-- A written number reads back. -/
theorem int?_ofInt (i : Int) : int? (ofInt i) = some i := by
  unfold ofInt signOf
  split
  · simp only [List.cons_append, List.nil_append, int?, digits?_ofNat]
    show some (-(i.natAbs : Int)) = some i
    rw [show -(i.natAbs : Int) = i by omega]
  · obtain ⟨c, text, h⟩ := List.exists_cons_of_ne_nil (l := ofNat i.natAbs) Nat.toDigits_ne_nil
    have hd : c.isDigit = true := by
      have := all_isDigit_ofNat i.natAbs
      rw [h] at this
      simp only [List.all_cons, Bool.and_eq_true] at this
      exact this.1
    rw [List.nil_append, h, int?_of_isDigit hd, ← h, digits?_ofNat]
    show some (i.natAbs : Int) = some i
    rw [show (i.natAbs : Int) = i by omega]

end Text

end EventFinder
