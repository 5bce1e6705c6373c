/-!
# Strict UTF-8

Decoding stops at the first byte that no well-formed sequence continues with. The failure names the
longest prefix of a well-formed sequence found there.
-/

namespace Chip8.Text.Utf8

inductive Reason where
  | invalidStart
  | invalidContinuation
  | unexpectedEnd
  deriving DecidableEq, Repr

structure Failure where
  /-- The offset of the first byte of the bad sequence. -/
  start : Nat
  /-- The number of bytes that belong to it. -/
  count : Nat
  first : UInt8
  reason : Reason
  deriving DecidableEq, Repr

/-- A sequence under way: what has been read of it, and the range of its next byte. -/
structure Pending where
  start : Nat
  count : Nat
  first : UInt8
  code : Nat
  missing : Nat
  low : Nat := 0x80
  high : Nat := 0xBF

/-- The sequences that start with `first`, a byte above 0x7F. -/
def begin? (start : Nat) (first : UInt8) : Option Pending :=
  let b := first.toNat
  if 0xC2 ≤ b ∧ b ≤ 0xDF then some { start, count := 1, first, code := b % 32, missing := 1 }
  else if b = 0xE0 then some { start, count := 1, first, code := 0, missing := 2, low := 0xA0 }
  else if b = 0xED then some { start, count := 1, first, code := 13, missing := 2, high := 0x9F }
  else if 0xE1 ≤ b ∧ b ≤ 0xEF then some { start, count := 1, first, code := b % 16, missing := 2 }
  else if b = 0xF0 then some { start, count := 1, first, code := 0, missing := 3, low := 0x90 }
  else if b = 0xF4 then some { start, count := 1, first, code := 4, missing := 3, high := 0x8F }
  else if 0xF1 ≤ b ∧ b ≤ 0xF3 then some { start, count := 1, first, code := b % 8, missing := 3 }
  else none

def Pending.push (p : Pending) (b : Nat) : Pending :=
  { p with count := p.count + 1, code := 64 * p.code + b % 64, missing := p.missing - 1,
           low := 0x80, high := 0xBF }

def Pending.fail (p : Pending) (reason : Reason) : Failure :=
  { start := p.start, count := p.count, first := p.first, reason }

/-- Decodes the bytes from offset `offset` on, after the reversed characters `done`. -/
def decodeFrom (offset : Nat) (pending : Option Pending) (done : List Char) :
    List UInt8 → Except Failure (List Char)
  | [] =>
      match pending with
      | none => .ok done.reverse
      | some p => .error (p.fail .unexpectedEnd)
  | b :: rest =>
      match pending with
      | none =>
          if b.toNat < 0x80 then decodeFrom (offset + 1) none (Char.ofNat b.toNat :: done) rest
          else
            match begin? offset b with
            | some p => decodeFrom (offset + 1) (some p) done rest
            | none => .error { start := offset, count := 1, first := b, reason := .invalidStart }
      | some p =>
          if p.low ≤ b.toNat ∧ b.toNat ≤ p.high then
            let q := p.push b.toNat
            if q.missing = 0 then decodeFrom (offset + 1) none (Char.ofNat q.code :: done) rest
            else decodeFrom (offset + 1) (some q) done rest
          else .error (p.fail .invalidContinuation)

def decode (bytes : List UInt8) : Except Failure String :=
  (decodeFrom 0 none [] bytes).map String.ofList

end Chip8.Text.Utf8
