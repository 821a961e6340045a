import Mathlib.Tactic.IntervalCases
import EventFinder.Tree.Path

/-!
# Decoding

Three facts about decoding bytes. A slash is never part of a longer sequence, so what stands behind
one is decoded on its own (`toText_append_slash`); the text of a directory is therefore a beginning
of the text of everything in it. Nor does any longer sequence stand for a slash, so that bytes
without one are decoded to a text without one (`slash_notMem_toText`). And decoding gives back the
text that was encoded (`toText_toBytes`), whose slashes are the bytes for slashes.
-/

set_option autoImplicit false

namespace EventFinder

/-! ## The bytes of texts -/

namespace Text

/-- The bytes of two texts, one after the other, are those of the first and then those of the
second. -/
theorem toBytes_append (first second : Text) :
    toBytes (first ++ second) = first.toBytes ++ second.toBytes :=
  List.flatMap_append

/-- The bytes of joined texts are their bytes, joined. -/
theorem intercalate_map_toBytes (separator : Text) (texts : List Text) :
    separator.toBytes.intercalate (texts.map toBytes) = toBytes (separator.intercalate texts) := by
  induction texts with
  | nil => rfl
  | cons text texts ih =>
    cases texts with
    | nil => simp
    | cons next texts =>
      simp only [List.map_cons, List.intercalate_cons_cons] at ih ⊢
      rw [ih, toBytes_append, toBytes_append]

end Text

/-! ## Sequences -/

namespace OpenSequence

/-- The next byte of the sequence is none that could stand for itself. -/
def IsOpen (sequence : OpenSequence) : Prop :=
  0x80 ≤ sequence.low.toNat

/-- Whatever bytes follow, the sequence is no character that could stand for itself as one byte. -/
structure IsLong (sequence : OpenSequence) : Prop where
  isOpen : sequence.IsOpen
  high_le : sequence.high.toNat ≤ 0xBF
  le_bits : 0x80 ≤ (sequence.bits * 0x40 + sequence.low.toNat % 0x40) * 0x40 ^ sequence.following

end OpenSequence

/-- A byte stands for itself, starts no sequence, or starts one that does not stand for a single
byte. -/
theorem leadByte_cases {b : UInt8} {lead : LeadByte} (h : leadByte b = lead) :
    lead = .whole (Char.ofNat b.toNat) ∨ lead = .invalid ∨
      ∃ sequence, lead = .start sequence ∧ sequence.IsLong := by
  unfold leadByte at h
  simp only [UInt8.lt_iff_toNat_lt, ← UInt8.toNat_inj] at h
  repeat' split at h
  all_goals subst h
  · exact .inl rfl
  any_goals exact .inr (.inl rfl)
  -- In each range of bytes, the least bits and the least next byte are enough.
  all_goals
    refine .inr (.inr ⟨_, rfl, by simp [OpenSequence.IsOpen], by simp, ?_⟩)
    simp at *
  all_goals omega

namespace OpenSequence

/-- A byte starts no sequence that could stand for a single byte. -/
theorem isLong_of_leadByte {b : UInt8} {sequence : OpenSequence}
    (h : leadByte b = .start sequence) : sequence.IsLong := by
  obtain hwhole | hinvalid | ⟨other, hstart, hlong⟩ := leadByte_cases h
  · cases hwhole
  · cases hinvalid
  · cases hstart
    exact hlong

end OpenSequence

namespace Bytes

/-! ## Decoding around a slash -/

/-- A slash ends what was decoded before it, be it complete or not. -/
theorem decodeFrom_append_slash {state : Option OpenSequence}
    (hstate : ∀ sequence, state = some sequence → sequence.IsOpen) (before after : Bytes) :
    decodeFrom state (before ++ slash :: after) =
      decodeFrom state before ++ '/' :: decodeFrom none after := by
  induction before generalizing state with
  | nil =>
    cases state with
    | none => rfl
    | some sequence =>
      have hopen := hstate sequence rfl
      have hout : ¬ (sequence.low ≤ slash ∧ slash ≤ sequence.high) := by
        rintro ⟨hlow, -⟩
        have : slash.toNat < 0x80 := by decide
        have := UInt8.le_iff_toNat_le.1 hlow
        simp only [OpenSequence.IsOpen] at hopen
        omega
      simp only [List.nil_append, decodeFrom, if_neg hout]
      rfl
  | cons b before ih =>
    have hnone := @ih none (by simp)
    have hsome : ∀ sequence : OpenSequence, sequence.IsOpen →
        decodeFrom (some sequence) (before ++ slash :: after) =
          decodeFrom (some sequence) before ++ '/' :: decodeFrom none after := by
      intro sequence hopen
      apply ih
      rintro _ ⟨⟩
      exact hopen
    cases state with
    | none =>
      simp only [List.cons_append, decodeFrom]
      split
      · simp [hnone]
      · rename_i sequence h
        exact hsome sequence ((OpenSequence.isLong_of_leadByte h).isOpen)
      · simp [hnone]
    | some sequence =>
      simp only [List.cons_append, decodeFrom]
      split
      · split
        · simp [hnone]
        · exact hsome _ (by simp [OpenSequence.IsOpen])
      · split
        · simp [hnone]
        · rename_i next h
          simp [hsome next ((OpenSequence.isLong_of_leadByte h).isOpen)]
        · simp [hnone]

/-- The parts of a path before and behind a slash are decoded on their own. -/
theorem toText_append_slash (before after : Bytes) :
    toText (before ++ slash :: after) = toText before ++ '/' :: toText after :=
  decodeFrom_append_slash (by simp) before after

end Bytes

/-! ## Slashes in decoded text -/

namespace OpenSequence

/-- A byte of the sequence adds at least as much as the least one that it could have been. -/
theorem IsLong.le_add {sequence : OpenSequence} (h : sequence.IsLong) {b : UInt8}
    (hin : sequence.low ≤ b ∧ b ≤ sequence.high) :
    0x80 ≤ (sequence.bits * 0x40 + b.toNat % 0x40) * 0x40 ^ sequence.following := by
  obtain ⟨hopen, hhigh, hbits⟩ := h
  obtain ⟨hlow, hle⟩ := hin
  rw [UInt8.le_iff_toNat_le] at hlow hle
  rw [IsOpen] at hopen
  refine hbits.trans (Nat.mul_le_mul_right _ ?_)
  omega

/-- With one more byte, the sequence is still none. -/
theorem IsLong.next {sequence : OpenSequence} (h : sequence.IsLong) {b : UInt8}
    (hin : sequence.low ≤ b ∧ b ≤ sequence.high) {following : Nat}
    (hfollowing : sequence.following = following + 1) :
    IsLong ⟨sequence.bits * 0x40 + b.toNat % 0x40, 0x80, 0xBF, following⟩ := by
  have hbits := h.le_add hin
  refine ⟨by simp [IsOpen], by simp, ?_⟩
  rw [hfollowing, Nat.pow_succ'] at hbits
  simpa [Nat.mul_assoc] using hbits

end OpenSequence

namespace Bytes

/-- Only the code of the slash is a slash, for an invalid code is none. -/
theorem eq_of_ofNat_eq_slash {n : Nat} (h : Char.ofNat n = '/') : n = 0x2F := by
  by_cases hvalid : n.isValidChar
  · have hcode : (Char.ofNat n).toNat = 0x2F := congrArg Char.toNat h
    rwa [Char.ofNat, dif_pos hvalid] at hcode
  · rw [Char.ofNat, dif_neg hvalid] at h
    exact absurd h (by decide)

/-- A byte that stands for itself is a slash only if it is the byte of the slash. -/
theorem whole_ne_slash {b : UInt8} {c : Char} (hb : b ≠ slash) (h : leadByte b = .whole c) :
    c ≠ '/' := by
  obtain hwhole | hinvalid | ⟨sequence, hstart, -⟩ := leadByte_cases h
  · cases hwhole
    exact fun hslash => hb (UInt8.toNat_inj.1 (eq_of_ofNat_eq_slash hslash))
  · cases hinvalid
  · cases hstart

/-- Bytes without a slash are decoded to a text without one, also where they are not UTF-8. -/
theorem slash_notMem_decodeFrom {state : Option OpenSequence} {bytes : Bytes}
    (hstate : ∀ sequence, state = some sequence → sequence.IsLong) (h : slash ∉ bytes) :
    '/' ∉ decodeFrom state bytes := by
  have hreplacement : '/' ≠ replacement := by decide
  have hnone : ∀ sequence, (none : Option OpenSequence) = some sequence → sequence.IsLong := nofun
  have hstart : ∀ {b : UInt8} {sequence : OpenSequence}, leadByte b = .start sequence →
      ∀ other, some sequence = some other → other.IsLong := by
    rintro b sequence hlead _ ⟨⟩
    exact OpenSequence.isLong_of_leadByte hlead
  fun_induction decodeFrom state bytes with
  | case1 => simp
  | case2 => simpa using hreplacement
  | case3 b rest c hlead ih =>
    simp only [List.mem_cons, not_or] at h ⊢
    exact ⟨(whole_ne_slash (Ne.symm h.1) hlead).symm, ih hnone h.2⟩
  | case4 b rest sequence hlead ih =>
    exact ih (hstart hlead) (List.not_mem_of_not_mem_cons h)
  | case5 b rest hlead ih =>
    simp only [List.mem_cons, not_or] at h ⊢
    exact ⟨hreplacement, ih hnone h.2⟩
  | case6 sequence b rest hin bits hfollowing ih =>
    have hlong : 0x80 ≤ bits * 0x40 ^ sequence.following := (hstate sequence rfl).le_add hin
    rw [hfollowing] at hlong
    simp only [List.mem_cons, not_or] at h ⊢
    refine ⟨fun hslash => ?_, ih hnone h.2⟩
    have hbits : bits = 0x2F := eq_of_ofNat_eq_slash hslash.symm
    omega
  | case7 sequence b rest hin bits following hfollowing ih =>
    refine ih ?_ (List.not_mem_of_not_mem_cons h)
    rintro _ ⟨⟩
    exact (hstate sequence rfl).next hin hfollowing
  | case8 sequence b rest hout c hlead ih =>
    simp only [List.mem_cons, not_or] at h ⊢
    exact ⟨hreplacement, (whole_ne_slash (Ne.symm h.1) hlead).symm, ih hnone h.2⟩
  | case9 sequence b rest hout next hlead ih =>
    simp only [List.mem_cons, not_or] at h ⊢
    exact ⟨hreplacement, ih (hstart hlead) h.2⟩
  | case10 sequence b rest hout hlead ih =>
    simp only [List.mem_cons, not_or] at h ⊢
    exact ⟨hreplacement, hreplacement, ih hnone h.2⟩

/-- Bytes without a slash are decoded to a text without one. -/
theorem slash_notMem_toText {bytes : Bytes} (h : slash ∉ bytes) : '/' ∉ bytes.toText :=
  slash_notMem_decodeFrom (by simp) h

/-! ## Decoding what was encoded -/

/-- What the byte for a number is at the start of a sequence of two bytes. -/
theorem leadByte_two {n : Nat} (hlow : 0xC2 ≤ n) (hhigh : n < 0xE0) :
    leadByte (UInt8.ofNat n) = .start ⟨n % 0x20, 0x80, 0xBF, 0⟩ := by
  interval_cases n <;> rfl

/-- The bytes from E0 to EF start a sequence of three. The bounds of the second byte keep out what
is written too long, and the surrogates. -/
theorem leadByte_three {n : Nat} (hlow : 0xE0 ≤ n) (hhigh : n < 0xF0) :
    leadByte (UInt8.ofNat n) =
      .start ⟨n % 0x10, if n = 0xE0 then 0xA0 else 0x80, if n = 0xED then 0x9F else 0xBF, 1⟩ := by
  interval_cases n <;> rfl

/-- The bytes from F0 to F4 start a sequence of four. The bounds of the second byte keep out what
is written too long, and what is beyond the last code. -/
theorem leadByte_four {n : Nat} (hlow : 0xF0 ≤ n) (hhigh : n < 0xF5) :
    leadByte (UInt8.ofNat n) =
      .start ⟨n % 0x08, if n = 0xF0 then 0x90 else 0x80, if n = 0xF4 then 0x8F else 0xBF, 2⟩ := by
  interval_cases n <;> rfl

/-- A byte that starts a sequence leaves it open. -/
theorem decodeFrom_start {b : UInt8} {sequence : OpenSequence} (h : leadByte b = .start sequence)
    (rest : Bytes) : decodeFrom none (b :: rest) = decodeFrom (some sequence) rest := by
  simp only [decodeFrom, h]

/-- A byte within its bounds that completes a sequence gives its character. -/
theorem decodeFrom_last {bits n : Nat} {low high : UInt8} (hlow : low.toNat ≤ n)
    (hhigh : n ≤ high.toNat) (rest : Bytes) :
    decodeFrom (some ⟨bits, low, high, 0⟩) (UInt8.ofNat n :: rest) =
      Char.ofNat (bits * 0x40 + n % 0x40) :: decodeFrom none rest := by
  have hn : (UInt8.ofNat n).toNat = n :=
    UInt8.toNat_ofNat_of_lt' (by have := high.toNat_lt; simp [UInt8.size]; omega)
  have hin : low ≤ UInt8.ofNat n ∧ UInt8.ofNat n ≤ high := by
    simp only [UInt8.le_iff_toNat_le, hn]
    exact ⟨hlow, hhigh⟩
  simp only [decodeFrom, if_pos hin, hn]

/-- A byte within its bounds that does not complete a sequence adds its six bits. -/
theorem decodeFrom_next {bits n following : Nat} {low high : UInt8} (hlow : low.toNat ≤ n)
    (hhigh : n ≤ high.toNat) (rest : Bytes) :
    decodeFrom (some ⟨bits, low, high, following + 1⟩) (UInt8.ofNat n :: rest) =
      decodeFrom (some ⟨bits * 0x40 + n % 0x40, 0x80, 0xBF, following⟩) rest := by
  have hn : (UInt8.ofNat n).toNat = n :=
    UInt8.toNat_ofNat_of_lt' (by have := high.toNat_lt; simp [UInt8.size]; omega)
  have hin : low ≤ UInt8.ofNat n ∧ UInt8.ofNat n ≤ high := by
    simp only [UInt8.le_iff_toNat_le, hn]
    exact ⟨hlow, hhigh⟩
  simp only [decodeFrom, if_pos hin, hn]

/-- A character that was encoded is decoded. -/
theorem decodeFrom_utf8EncodeChar (c : Char) (rest : Bytes) :
    decodeFrom none (String.utf8EncodeChar c ++ rest) = c :: decodeFrom none rest := by
  have hvalid : c.val.toNat < 0xD800 ∨ 0xDFFF < c.val.toNat ∧ c.val.toNat < 0x110000 := c.valid
  have hchar : Char.ofNat c.val.toNat = c := Char.ofNat_toNat c
  unfold String.utf8EncodeChar
  generalize c.val.toNat = v at hvalid hchar
  simp only []
  split_ifs with hone htwo hthree
  · have hlead : leadByte (UInt8.ofNat v) = .whole (Char.ofNat v) := by
      have hv : (UInt8.ofNat v).toNat = v := UInt8.toNat_ofNat_of_lt' (by simp [UInt8.size]; omega)
      have hlt : UInt8.ofNat v < 0x80 := UInt8.lt_iff_toNat_lt.2 (by
        rw [hv]
        exact Nat.lt_succ_of_le hone)
      rw [leadByte, if_pos hlt, hv]
    simp only [List.cons_append, List.nil_append, decodeFrom, hlead, hchar]
  · have hlead := leadByte_two (n := v / 64 % 32 + 192) (by omega) (by omega)
    simp only [List.cons_append, List.nil_append]
    rw [decodeFrom_start hlead, decodeFrom_last (by simp) (by simp; omega)]
    rw [show (v / 64 % 32 + 192) % 32 * 64 + (v % 64 + 128) % 64 = v by omega, hchar]
  · -- The range of the second byte leaves out overlong forms and surrogates.
    have hlead := leadByte_three (n := v / 4096 % 16 + 224) (by omega) (by omega)
    have hlow : (if v / 4096 % 16 + 224 = 0xE0 then 0xA0 else 0x80 : UInt8).toNat ≤
        v / 64 % 64 + 128 := by
      split_ifs <;> simp
      omega
    have hhigh : v / 64 % 64 + 128 ≤
        (if v / 4096 % 16 + 224 = 0xED then 0x9F else 0xBF : UInt8).toNat := by
      split_ifs <;> simp <;> omega
    simp only [List.cons_append, List.nil_append]
    rw [decodeFrom_start hlead, decodeFrom_next hlow hhigh,
      decodeFrom_last (by simp) (by simp; omega)]
    rw [show ((v / 4096 % 16 + 224) % 16 * 64 + (v / 64 % 64 + 128) % 64) * 64 +
      (v % 64 + 128) % 64 = v by omega, hchar]
  · -- The range of the second byte leaves out overlong forms and the end of the code space.
    have hlead := leadByte_four (n := v / 262144 % 8 + 240) (by omega) (by omega)
    have hlow : (if v / 262144 % 8 + 240 = 0xF0 then 0x90 else 0x80 : UInt8).toNat ≤
        v / 4096 % 64 + 128 := by
      split_ifs <;> simp
      omega
    have hhigh : v / 4096 % 64 + 128 ≤
        (if v / 262144 % 8 + 240 = 0xF4 then 0x8F else 0xBF : UInt8).toNat := by
      split_ifs <;> simp <;> omega
    simp only [List.cons_append, List.nil_append]
    rw [decodeFrom_start hlead, decodeFrom_next hlow hhigh,
      decodeFrom_next (by simp) (by simp; omega), decodeFrom_last (by simp) (by simp; omega)]
    rw [show (((v / 262144 % 8 + 240) % 8 * 64 + (v / 4096 % 64 + 128) % 64) * 64 +
      (v / 64 % 64 + 128) % 64) * 64 + (v % 64 + 128) % 64 = v by omega, hchar]

/-- Decoding gives back the text that was encoded, and goes on with what stands behind it. -/
theorem toText_toBytes_append (text : Text) (rest : Bytes) :
    toText (text.toBytes ++ rest) = text ++ toText rest := by
  induction text with
  | nil => rfl
  | cons c text ih =>
    rw [Text.toBytes, List.flatMap_cons, List.append_assoc, toText, decodeFrom_utf8EncodeChar]
    exact congrArg _ ih

/-- Decoding gives back the text that was encoded. -/
theorem toText_toBytes (text : Text) : toText text.toBytes = text := by
  have h := toText_toBytes_append text []
  rwa [List.append_nil, show toText [] = [] from rfl, List.append_nil] at h

/-- The bytes of a text are UTF-8 and say the text. -/
theorem toText?_toBytes (text : Text) : toText? text.toBytes = some text := by
  rw [toText?, toText_toBytes, if_pos rfl]

/-- Texts are encoded differently. -/
theorem toBytes_injective : Function.Injective Text.toBytes :=
  Function.LeftInverse.injective toText_toBytes

/-- The bytes of a text hold a slash only where the text does. -/
theorem slash_notMem_toBytes {text : Text} (h : '/' ∉ text) : slash ∉ text.toBytes := by
  intro hslash
  obtain ⟨before, after, heq⟩ := List.mem_iff_append.1 hslash
  have htext : text = toText before ++ '/' :: toText after := by
    rw [← toText_append_slash, ← heq, toText_toBytes]
  exact h (by simp [htext])

end Bytes

end EventFinder
