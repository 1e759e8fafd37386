/-
  InfixArithmetic.Proofs.Utf8Acceptance

  Bytes that are read as a text are the bytes of this text (`decode_eq_ok_iff`): the bounds
  of the second byte leave no other way to write a character.  Up to a byte inside a
  character, what has been read decides about its bytes whatever its other groups of bits
  turn out to be (`Pending.HasRead`), so every byte read adds itself to them.  This is so
  too of bytes that arrive in blocks (`decode_block_eq_ok_iff`), which only shift the place
  of a fault.
-/

import InfixArithmetic.Proofs.Utf8RoundTrip
import Mathlib.Tactic.SplitIfs

namespace InfixArithmetic.Text.Utf8

/-! ## The first byte -/

/-- What the first byte of a character says of its code: the length, and the bits that are
    not in the bytes after it. -/
theorem lead?_awaits {index : Nat} {b : UInt8} {p : Pending} (h : lead? index b = some p)
    {n v : Nat} (hv : p.Awaits n v) :
    n = 0 ∧ 0x80 ≤ v ∧ v ≤ 0x7FF ∧ b.toNat = v / 64 + 0xC0 ∨
      n = 1 ∧ 0x800 ≤ v ∧ v ≤ 0xFFFF ∧ (v < 0xD800 ∨ 0xDFFF < v) ∧ b.toNat = v / 4096 + 0xE0 ∨
      n = 2 ∧ 0x10000 ≤ v ∧ v ≤ 0x10FFFF ∧ b.toNat = v / 262144 + 0xF0 := by
  obtain ⟨hmissing, hcode, hlow, hhigh⟩ := hv
  simp only [lead?] at h
  -- The number of missing bytes fixes `n`, and then all groups of `v` are bounded.
  split_ifs at h
  all_goals
    cases h
    simp only [Nat.reduceEqDiff] at hmissing
    subst hmissing
    simp only [Nat.reducePow, Nat.reduceAdd, Nat.div_one] at hcode hlow hhigh
    omega

/-- Whatever comes after the first byte continues a character. -/
theorem lead?_bounds {index : Nat} {b : UInt8} {p : Pending} (h : lead? index b = some p) :
    0x80 ≤ p.low ∧ p.high ≤ 0xBF := by
  simp only [lead?] at h
  split_ifs at h
  all_goals
    cases h
    exact ⟨by simp, by simp⟩

theorem toNat_ofNat {v : Nat} (h : v.isValidChar) : (Char.ofNat v).toNat = v := by
  rw [Char.ofNat, dif_pos h]
  rfl

/-- The character that a first byte and the bytes after it stand for has these bytes. -/
theorem encodeChar_of_lead? {index : Nat} {b : UInt8} {p : Pending}
    (h : lead? index b = some p) {n v : Nat} (hv : p.Awaits n v) :
    String.utf8EncodeChar (Char.ofNat v) = b :: tail (n + 1) v := by
  have hcase := lead?_awaits h hv
  have hvalid : v.isValidChar := by
    unfold Nat.isValidChar
    omega
  have hcode : (Char.ofNat v).toNat = v := toNat_ofNat hvalid
  obtain ⟨b', p', n', hbytes, hlead, hp'⟩ := encodeChar_eq (c := Char.ofNat v) (by omega) index
  rw [hcode] at hbytes hp'
  -- The code alone decides about the length and about the first byte.
  have hcase' := lead?_awaits hlead hp'
  obtain rfl : n' = n := by omega
  obtain rfl : b' = b := UInt8.toNat_inj.1 (by omega)
  exact hbytes

/-! ## The bytes after it -/

/-- The bytes `before` of a character have been read, and its code so far is `p`. -/
structure Pending.HasRead (p : Pending) (before : List UInt8) : Prop where
  low : 0x80 ≤ p.low
  high : p.high ≤ 0xBF
  bytes : ∀ {n v : Nat}, p.Awaits n v →
    String.utf8EncodeChar (Char.ofNat v) = before ++ tail (n + 1) v

theorem hasRead_lead? {index : Nat} {b : UInt8} {p : Pending} (h : lead? index b = some p) :
    p.HasRead [b] where
  low := (lead?_bounds h).1
  high := (lead?_bounds h).2
  bytes := encodeChar_of_lead? h

section Continuation

variable {p : Pending} {before : List UInt8} (hp : p.HasRead before) {b : UInt8}
  (hb : p.low ≤ b.toNat ∧ b.toNat ≤ p.high)

include hp hb

/-- The last byte of a character. -/
theorem encodeChar_last (hmissing : p.missing = 1) :
    String.utf8EncodeChar (Char.ofNat (p.code * 64 + (b.toNat - 0x80))) = before ++ [b] := by
  have hlow := hp.low
  have hhigh := hp.high
  have hgroup : (p.code * 64 + (b.toNat - 0x80)) % 64 + 0x80 = b.toNat := by omega
  have hawaits : p.Awaits 0 (p.code * 64 + (b.toNat - 0x80)) := by
    refine ⟨hmissing, ?_, ?_, ?_⟩
    · simp only [Nat.zero_add, Nat.pow_one]
      omega
    · rw [Nat.pow_zero, Nat.div_one, hgroup]
      exact hb.1
    · rw [Nat.pow_zero, Nat.div_one, hgroup]
      exact hb.2
  rw [hp.bytes hawaits, tail, Nat.pow_zero, Nat.div_one, hgroup, UInt8.ofNat_toNat]
  rfl

/-- A byte of a character that is not the last one. -/
theorem hasRead_next :
    Pending.HasRead { p with
      seen := p.seen + 1, missing := p.missing - 1, low := 0x80, high := 0xBF,
      code := p.code * 64 + (b.toNat - 0x80) } (before ++ [b]) where
  low := Nat.le_refl _
  high := Nat.le_refl _
  bytes := by
    intro n v hv
    obtain ⟨hmissing', hcode, -, -⟩ := hv
    dsimp only at hmissing' hcode
    have hlow := hp.low
    have hhigh := hp.high
    have hdiv : v / 64 ^ (n + 1 + 1) = v / 64 ^ (n + 1) / 64 := by
      rw [Nat.div_div_eq_div_mul, ← Nat.pow_succ]
    have hgroup : v / 64 ^ (n + 1) % 64 + 0x80 = b.toNat := by omega
    have hawaits : p.Awaits (n + 1) v := by
      refine ⟨by omega, by omega, ?_, ?_⟩
      · rw [hgroup]
        exact hb.1
      · rw [hgroup]
        exact hb.2
    rw [hp.bytes hawaits, tail, hgroup, UInt8.ofNat_toNat, List.append_assoc]
    rfl

end Continuation

/-! ## Texts -/

/-- What has been read of a character before the next byte, if it has been started. -/
inductive HasRead : Option Pending → List UInt8 → Prop where
  | between : HasRead none []
  | within {p : Pending} {before : List UInt8} (h : p.HasRead before) : HasRead (some p) before

/-- Bytes that are read without a fault are those of the text. -/
theorem encode_decodeFrom {pending? : Option Pending} {before : List UInt8}
    (hpending : HasRead pending? before) {bs : List UInt8} {index origin : Nat} {cs : List Char}
    (h : decodeFrom none index origin pending? bs = (cs, none)) : encode cs = before ++ bs := by
  induction bs generalizing pending? before index origin cs with
  | nil =>
    cases hpending with
    | between =>
      cases h
      rfl
    | within hp => cases h
  | cons b bs ih =>
    cases hpending with
    | between =>
      simp only [decodeFrom, startsBlock] at h
      split at h
      next hascii =>
        -- A byte below 0x80 is a character by itself.
        obtain ⟨rfl, hfault⟩ := Prod.mk.inj h
        have hrest := ih .between (Prod.ext rfl hfault)
        have hlt : b.toNat < 0x80 := hascii
        have hcode : (Char.ofNat b.toNat).toNat = b.toNat := toNat_ofNat (.inl (by omega))
        rw [encode_cons, hrest, encodeChar_ascii (hcode.symm ▸ hlt), hcode, UInt8.ofNat_toNat]
        rfl
      next hascii =>
        cases hlead : lead? index b with
        | none =>
          rw [hlead] at h
          cases h
        | some p =>
          rw [hlead] at h
          exact ih (.within (hasRead_lead? hlead)) h
    | within hp =>
      simp only [decodeFrom, startsBlock] at h
      split at h
      next hb =>
        split at h
        next hmissing =>
          obtain ⟨rfl, hfault⟩ := Prod.mk.inj h
          have hrest := ih .between (Prod.ext rfl hfault)
          rw [encode_cons, hrest, encodeChar_last hp hb hmissing, List.append_assoc]
          rfl
        next hmissing =>
          have hrest := ih (.within (hasRead_next hp hb)) h
          rw [hrest, List.append_assoc]
          rfl
      next hb => cases h

/-- Bytes stand for a text exactly if they are the bytes of this text. -/
theorem decode_eq_ok_iff {bs : List UInt8} {cs : List Char} :
    decode none bs = .ok cs ↔ encode cs = bs := by
  constructor
  · intro h
    rw [decode] at h
    split at h
    next cs' hfrom =>
      cases h
      exact encode_decodeFrom .between hfrom
    next => cases h
  · rintro rfl
    exact decode_encode cs

/-! ## Blocks -/

theorem map_isSome_cons (c : Char) {r r' : List Char × Option Fault}
    (h : r.map id Option.isSome = r'.map id Option.isSome) :
    Prod.map id Option.isSome (c :: r.1, r.2) = Prod.map id Option.isSome (c :: r'.1, r'.2) := by
  obtain ⟨hchars, hfault⟩ := Prod.mk.inj h
  exact Prod.ext (congrArg (c :: ·) hchars) hfault

/-- Bytes that arrive in blocks stand for the same characters, and have a fault if they have
    one when given all at once; only the place of the fault may be another. -/
theorem decodeFrom_block (block? : Option Nat) (index origin origin' : Nat)
    (pending? : Option Pending) (bs : List UInt8) :
    (decodeFrom block? index origin pending? bs).map id Option.isSome
      = (decodeFrom none index origin' pending? bs).map id Option.isSome := by
  induction bs generalizing index origin origin' pending? with
  | nil => cases pending? <;> rfl
  | cons b bs ih =>
    cases pending? with
    | none =>
      simp only [decodeFrom]
      split
      next => exact map_isSome_cons _ (ih ..)
      next =>
        cases lead? index b with
        | none => rfl
        | some p => exact ih ..
    | some p =>
      simp only [decodeFrom]
      split
      next =>
        split
        next => exact map_isSome_cons _ (ih ..)
        next => exact ih ..
      next => rfl

theorem decode_eq_ok {block? : Option Nat} {bs : List UInt8} {cs : List Char} :
    decode block? bs = .ok cs ↔
      (decodeFrom block? 0 0 none bs).map id Option.isSome = (cs, false) := by
  rw [decode]
  split
  next cs' hfrom => simp [hfrom]
  next cs' fault hfrom => simp [hfrom]

/-- It makes no difference to a text whether its bytes arrive in blocks. -/
theorem decode_block_eq_ok_iff {block? : Option Nat} {bs : List UInt8} {cs : List Char} :
    decode block? bs = .ok cs ↔ encode cs = bs := by
  rw [decode_eq_ok, decodeFrom_block block? 0 0 0, ← decode_eq_ok, decode_eq_ok_iff]

end InfixArithmetic.Text.Utf8
