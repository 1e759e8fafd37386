/-
  InfixArithmetic.Proofs.Utf8RoundTrip

  The bytes of a text, read again.

  A character above U+007F is a first byte and six bits of its code in each of the
  others (`tail`).  What the decoder knows after the first byte is that it awaits those
  (`Pending.Awaits`), and reading them puts the code together (`decodeFrom_tail`).  All
  these bytes are above 0x7F, so a byte below stands for a character by itself.
-/

import InfixArithmetic.Text.Utf8
import Mathlib.Algebra.Group.Nat.Defs

namespace InfixArithmetic.Text.Utf8

/-! ## The bytes after the first one -/

/-- The `n` last groups of six bits of a code, each in a byte. -/
def tail : Nat → Nat → List UInt8
  | 0, _ => []
  | n + 1, v => UInt8.ofNat (v / 64 ^ n % 64 + 0x80) :: tail n v

/-- The byte for a group of six bits. -/
theorem toNat_group (v : Nat) : (UInt8.ofNat (v % 64 + 0x80)).toNat = v % 64 + 0x80 := by
  rw [UInt8.toNat_ofNat']
  omega

theorem le_of_mem_tail {n v : Nat} {b : UInt8} (h : b ∈ tail n v) : 0x80 ≤ b.toNat := by
  induction n with
  | zero => simp [tail] at h
  | succ n ih =>
    rcases List.mem_cons.1 h with rfl | h
    · rw [toNat_group]
      omega
    · exact ih h

/-- A character of code `v` has been read but for its `n + 1` last groups, and the next
    one is within the bounds. -/
structure Pending.Awaits (p : Pending) (n v : Nat) : Prop where
  missing : p.missing = n + 1
  code : p.code = v / 64 ^ (n + 1)
  low : p.low ≤ v / 64 ^ n % 64 + 0x80
  high : v / 64 ^ n % 64 + 0x80 ≤ p.high

/-- The rest of a character is read as this character. -/
theorem decodeFrom_tail {p : Pending} {n v : Nat} (h : p.Awaits n v) (index origin : Nat)
    (rest : List UInt8) :
    decodeFrom none index origin (some p) (tail (n + 1) v ++ rest) =
      (Char.ofNat v :: (decodeFrom none (index + n + 1) origin none rest).1,
        (decodeFrom none (index + n + 1) origin none rest).2) := by
  induction n generalizing p index with
  | zero =>
    have hcode : p.code * 64 + (v % 64 + 0x80 - 0x80) = v := by
      have := h.code
      omega
    have hlow := h.low
    have hhigh := h.high
    simp only [Nat.pow_zero, Nat.div_one] at hlow hhigh
    simp only [tail, Nat.pow_zero, Nat.div_one, List.cons_append, List.nil_append, decodeFrom,
      startsBlock, toNat_group]
    rw [if_pos ⟨hlow, hhigh⟩, if_pos h.missing, hcode]
    rfl
  | succ n ih =>
    have hcode : p.code * 64 + (v / 64 ^ (n + 1) % 64 + 0x80 - 0x80) = v / 64 ^ (n + 1) := by
      have hnext : v / 64 ^ (n + 1 + 1) = v / 64 ^ (n + 1) / 64 := by
        rw [Nat.div_div_eq_div_mul, ← Nat.pow_succ]
      have := h.code
      omega
    have hmissing : p.missing ≠ 1 := by
      have := h.missing
      omega
    rw [tail, List.cons_append, decodeFrom]
    simp only [startsBlock, toNat_group]
    rw [if_pos ⟨h.low, h.high⟩, if_neg hmissing, hcode,
      show index + (n + 1) + 1 = index + 1 + n + 1 by omega]
    -- The next byte may be any that continues a character.
    refine ih ⟨?_, rfl, ?_, ?_⟩ (index + 1)
    · show p.missing - 1 = n + 1
      have := h.missing
      omega
    · exact Nat.le_add_left _ _
    · show v / 64 ^ n % 64 + 0x80 ≤ 0xBF
      omega

/-! ## The first byte -/

theorem le_of_lead? {index : Nat} {b : UInt8} {p : Pending} (h : lead? index b = some p) :
    0x80 ≤ b.toNat := by
  refine Nat.not_lt.1 fun hb => ?_
  simp only [lead?] at h
  rw [if_neg (by omega), if_neg (by omega), if_neg (by omega), if_neg (by omega),
    if_neg (by omega), if_neg (by omega), if_neg (by omega)] at h
  cases h

theorem lead?_two {v : Nat} (hlow : 0x80 ≤ v) (hhigh : v ≤ 0x7FF) (index : Nat) :
    ∃ p, lead? index (UInt8.ofNat (v / 64 % 32 + 0xC0)) = some p ∧ p.Awaits 0 v := by
  have hbyte : (UInt8.ofNat (v / 64 % 32 + 0xC0)).toNat = v / 64 + 0xC0 := by
    rw [UInt8.toNat_ofNat']
    omega
  simp only [lead?, hbyte]
  rw [if_pos (by omega)]
  refine ⟨_, rfl, rfl, ?_, ?_, ?_⟩ <;> simp only [Nat.reducePow, Nat.zero_add] <;> omega

/-- The second byte of a surrogate would be out of bounds. -/
theorem lead?_three {v : Nat} (hlow : 0x800 ≤ v) (hhigh : v ≤ 0xFFFF)
    (hvalid : v < 0xD800 ∨ 0xDFFF < v) (index : Nat) :
    ∃ p, lead? index (UInt8.ofNat (v / 4096 % 16 + 0xE0)) = some p ∧ p.Awaits 1 v := by
  have hbyte : (UInt8.ofNat (v / 4096 % 16 + 0xE0)).toNat = v / 4096 + 0xE0 := by
    rw [UInt8.toNat_ofNat']
    omega
  simp only [lead?, hbyte]
  rw [if_neg (by omega)]
  split
  next hfirst => refine ⟨_, rfl, rfl, ?_, ?_, ?_⟩ <;> simp only [Nat.reducePow] <;> omega
  next hfirst =>
    split
    next hsurrogates =>
      refine ⟨_, rfl, rfl, ?_, ?_, ?_⟩ <;> simp only [Nat.reducePow] <;> omega
    next hsurrogates =>
      rw [if_pos (by omega)]
      refine ⟨_, rfl, rfl, ?_, ?_, ?_⟩ <;> simp only [Nat.reducePow] <;> omega

theorem lead?_four {v : Nat} (hlow : 0x10000 ≤ v) (hhigh : v ≤ 0x10FFFF) (index : Nat) :
    ∃ p, lead? index (UInt8.ofNat (v / 262144 % 8 + 0xF0)) = some p ∧ p.Awaits 2 v := by
  have hbyte : (UInt8.ofNat (v / 262144 % 8 + 0xF0)).toNat = v / 262144 + 0xF0 := by
    rw [UInt8.toNat_ofNat']
    omega
  simp only [lead?, hbyte]
  rw [if_neg (by omega), if_neg (by omega), if_neg (by omega), if_neg (by omega)]
  split
  next hfirst => refine ⟨_, rfl, rfl, ?_, ?_, ?_⟩ <;> simp only [Nat.reducePow] <;> omega
  next hfirst =>
    split
    next hlast => refine ⟨_, rfl, rfl, ?_, ?_, ?_⟩ <;> simp only [Nat.reducePow] <;> omega
    next hlast =>
      rw [if_pos (by omega)]
      refine ⟨_, rfl, rfl, ?_, ?_, ?_⟩ <;> simp only [Nat.reducePow] <;> omega

/-! ## Characters -/

theorem encodeChar_ascii {c : Char} (h : c.toNat < 0x80) :
    String.utf8EncodeChar c = [UInt8.ofNat c.toNat] :=
  if_pos (Nat.le_of_lt_succ h)

theorem toNat_ascii {c : Char} (h : c.toNat < 0x80) : (UInt8.ofNat c.toNat).toNat = c.toNat := by
  rw [UInt8.toNat_ofNat']
  omega

/-- A character above U+007F: its first byte tells the decoder what to await. -/
theorem encodeChar_eq {c : Char} (h : 0x80 ≤ c.toNat) (index : Nat) :
    ∃ b p n, String.utf8EncodeChar c = b :: tail (n + 1) c.toNat ∧ lead? index b = some p ∧
      p.Awaits n c.toNat := by
  have hvalid : c.toNat < 0xD800 ∨ 0xDFFF < c.toNat ∧ c.toNat < 0x110000 := c.valid
  have hval : c.val.toNat = c.toNat := rfl
  simp only [String.utf8EncodeChar, hval]
  generalize c.toNat = v at h hvalid
  rw [if_neg (by omega)]
  split
  next htwo =>
    obtain ⟨p, hlead, hp⟩ := lead?_two h htwo index
    exact ⟨_, p, 0, by simp [tail], hlead, hp⟩
  next htwo =>
    split
    next hthree =>
      obtain ⟨p, hlead, hp⟩ := lead?_three (by omega) hthree (by omega) index
      exact ⟨_, p, 1, by simp [tail], hlead, hp⟩
    next hthree =>
      obtain ⟨p, hlead, hp⟩ := lead?_four (v := v) (by omega) (by omega) index
      exact ⟨_, p, 2, by simp [tail], hlead, hp⟩

theorem decodeFrom_encodeChar (c : Char) (index origin : Nat) (rest : List UInt8) :
    ∃ next, decodeFrom none index origin none (String.utf8EncodeChar c ++ rest) =
      (c :: (decodeFrom none next origin none rest).1,
        (decodeFrom none next origin none rest).2) := by
  by_cases hascii : c.toNat < 0x80
  · have hlt : UInt8.ofNat c.toNat < 0x80 := by
      rw [UInt8.lt_iff_toNat_lt, toNat_ascii hascii]
      exact hascii
    refine ⟨index + 1, ?_⟩
    rw [encodeChar_ascii hascii, List.singleton_append, decodeFrom, if_pos hlt,
      toNat_ascii hascii, Char.ofNat_toNat]
    rfl
  · obtain ⟨b, p, n, hbytes, hlead, hp⟩ := encodeChar_eq (Nat.le_of_not_lt hascii) index
    have hlt : ¬ b < 0x80 := by
      rw [UInt8.lt_iff_toNat_lt]
      exact Nat.not_lt.2 (le_of_lead? hlead)
    refine ⟨index + 1 + n + 1, ?_⟩
    rw [hbytes, List.cons_append, decodeFrom]
    simp only [startsBlock]
    rw [if_neg hlt, hlead]
    simp only
    rw [decodeFrom_tail hp, Char.ofNat_toNat]
    rfl

/-! ## Texts -/

@[simp] theorem encode_cons (c : Char) (cs : List Char) :
    encode (c :: cs) = String.utf8EncodeChar c ++ encode cs := rfl

theorem decodeFrom_encode (cs : List Char) (index origin : Nat) :
    decodeFrom none index origin none (encode cs) = (cs, none) := by
  induction cs generalizing index with
  | nil => rfl
  | cons c cs ih =>
    obtain ⟨next, h⟩ := decodeFrom_encodeChar c index origin (encode cs)
    rw [encode_cons, h, ih]

/-- The bytes of a text stand for this text. -/
theorem decode_encode (cs : List Char) : decode none (encode cs) = .ok cs := by
  rw [decode, decodeFrom_encode]

theorem mem_encodeChar_ascii {d : Char} (hd : d.toNat < 0x80) {c : Char} :
    UInt8.ofNat d.toNat ∈ String.utf8EncodeChar c ↔ d = c := by
  by_cases hascii : c.toNat < 0x80
  · rw [encodeChar_ascii hascii, List.mem_singleton, ← UInt8.toNat_inj, toNat_ascii hd,
      toNat_ascii hascii, Char.toNat_inj]
  · obtain ⟨b, p, n, hbytes, hlead, -⟩ := encodeChar_eq (Nat.le_of_not_lt hascii) 0
    rw [hbytes, List.mem_cons]
    constructor
    · -- Neither the first byte nor one after it is below 0x80.
      have hbyte := toNat_ascii hd
      rintro (rfl | hmem)
      · have := le_of_lead? hlead
        omega
      · have := le_of_mem_tail hmem
        omega
    · rintro rfl
      exact absurd hd hascii

/-- A byte below 0x80 stands for a character by itself, wherever it is. -/
theorem mem_encode_ascii {d : Char} (hd : d.toNat < 0x80) {cs : List Char} :
    UInt8.ofNat d.toNat ∈ encode cs ↔ d ∈ cs := by
  simp only [encode, List.mem_flatMap, mem_encodeChar_ascii hd, exists_eq_right']

end InfixArithmetic.Text.Utf8
