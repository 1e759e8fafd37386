/-
  InfixArithmetic.Text.Utf8

  UTF-8: texts as bytes, and bytes read as a text, one byte after the other. A byte
  sequence that is no text is refused at the first byte that rules it out, with the
  place of the character that it spoils.

  Bytes are given all at once or arrive in blocks. In blocks, the place of a fault is
  counted from the start of the block in which it shows, or from the start of the
  character that the block before has left unfinished.
-/

import InfixArithmetic.Text.Display

namespace InfixArithmetic.Text.Utf8

/-! ## Faults -/

/-- What is wrong with a byte sequence. -/
inductive Reason where
  /-- The byte starts no character. -/
  | invalidStart
  /-- The character is followed by a byte that does not continue it. -/
  | invalidContinuation
  /-- The bytes end within a character. -/
  | unexpectedEnd
deriving DecidableEq, Repr

/-- A character that cannot be read: where its bytes start, and those of them that
    were good. -/
structure Fault where
  position : Nat
  first : UInt8
  length : Nat
  reason : Reason
deriving DecidableEq, Repr

def Reason.message : Reason → String
  | invalidStart => "invalid start byte"
  | invalidContinuation => "invalid continuation byte"
  | unexpectedEnd => "unexpected end of data"

def Fault.message (f : Fault) : String :=
  let place :=
    if f.length = 1 then
      "byte 0x" ++ String.ofList (hexDigits 2 f.first.toNat) ++ " in position " ++
        natural f.position
    else
      "bytes in position " ++ natural f.position ++ "-" ++
        natural (f.position + f.length - 1)
  "'utf-8' codec can't decode " ++ place ++ ": " ++ f.reason.message

/-! ## Reading -/

/-- A character of which some bytes have been read. -/
structure Pending where
  /-- The index of its first byte. -/
  start : Nat
  first : UInt8
  /-- How many bytes have been read, and how many are still to come. -/
  seen : Nat
  missing : Nat
  /-- The bounds of the next byte. -/
  low : Nat
  high : Nat
  /-- The bits read so far. -/
  code : Nat
deriving DecidableEq, Repr

/-- What a byte at the given index starts, if it starts a character of more than
    one byte. The bounds of the second byte leave out the overlong forms, the
    surrogates and everything above U+10FFFF. -/
def lead? (index : Nat) (b : UInt8) : Option Pending :=
  let n := b.toNat
  let pending := Pending.mk index b 1
  if 0xC2 ≤ n ∧ n ≤ 0xDF then some (pending 1 0x80 0xBF (n - 0xC0))
  else if n = 0xE0 then some (pending 2 0xA0 0xBF 0)
  else if n = 0xED then some (pending 2 0x80 0x9F 0xD)
  else if 0xE1 ≤ n ∧ n ≤ 0xEF then some (pending 2 0x80 0xBF (n - 0xE0))
  else if n = 0xF0 then some (pending 3 0x90 0xBF 0)
  else if n = 0xF4 then some (pending 3 0x80 0x8F 4)
  else if 0xF1 ≤ n ∧ n ≤ 0xF3 then some (pending 3 0x80 0xBF (n - 0xF0))
  else none

/-- True if a byte turns a pending character into a surrogate. At the end of a block
    such a character still counts as unfinished. -/
def Pending.isSurrogate (p : Pending) (b : UInt8) : Bool :=
  p.first == 0xED && p.seen == 1 && 0xA0 ≤ b && b ≤ 0xBF

/-- True of the index at which a block starts. Bytes given all at once have none. -/
def startsBlock (block? : Option Nat) (index : Nat) : Bool :=
  match block? with
  | some size => index % size == 0
  | none => false

/-- The characters that bytes stand for, and the fault that ends them, if any. The
    first byte has the index `index`, and places are counted from `origin`. -/
def decodeFrom (block? : Option Nat) (index origin : Nat) :
    Option Pending → List UInt8 → List Char × Option Fault
  | none, [] => ([], none)
  | some p, [] =>
    -- The last block leaves an unfinished character to an empty one after it.
    let origin := if block?.isSome then p.start else origin
    ([], some ⟨p.start - origin, p.first, p.seen, .unexpectedEnd⟩)
  | none, b :: bs =>
    let origin := if startsBlock block? index then index else origin
    if b < 0x80 then
      let (cs, fault) := decodeFrom block? (index + 1) origin none bs
      (Char.ofNat b.toNat :: cs, fault)
    else
      match lead? index b with
      | some p => decodeFrom block? (index + 1) origin (some p) bs
      | none => ([], some ⟨index - origin, b, 1, .invalidStart⟩)
  | some p, b :: bs =>
    let origin := if startsBlock block? index then p.start else origin
    let n := b.toNat
    if p.low ≤ n ∧ n ≤ p.high then
      let code := p.code * 64 + (n - 0x80)
      if p.missing = 1 then
        let (cs, fault) := decodeFrom block? (index + 1) origin none bs
        (Char.ofNat code :: cs, fault)
      else
        decodeFrom block? (index + 1) origin
          (some { p with
            seen := p.seen + 1, missing := p.missing - 1, low := 0x80, high := 0xBF,
            code := code }) bs
    else
      let blockEnds := block?.isSome ∧ bs = [] ∨ startsBlock block? (index + 1)
      let origin := if p.isSurrogate b ∧ blockEnds then p.start else origin
      ([], some ⟨p.start - origin, p.first, p.seen, .invalidContinuation⟩)

/-- The text that bytes stand for, given all at once or read in blocks of a size. -/
def decode (block? : Option Nat) (bs : List UInt8) : Except Fault (List Char) :=
  match decodeFrom block? 0 0 none bs with
  | (cs, none) => .ok cs
  | (_, some fault) => .error fault

/-- The bytes of a text. -/
def encode (cs : List Char) : List UInt8 := cs.flatMap String.utf8EncodeChar

end InfixArithmetic.Text.Utf8
