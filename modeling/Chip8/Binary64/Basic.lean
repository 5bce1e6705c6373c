/-!
# Binary64 numbers

A number is its 64 bits: a sign, an 11-bit exponent field and a 52-bit fraction. `reading` gives the
datum they encode, with the exact rational value of a finite number.
-/

namespace Chip8

structure Binary64 where
  bits : UInt64
  deriving DecidableEq, Repr

namespace Binary64

def infinityBits : Nat := 0x7FF0000000000000

def signBit : Nat := 0x8000000000000000

/-- The weight of the leading digit of a normal number, which the fraction leaves out. -/
def leadingBit : Nat := 0x10000000000000

def isNegative (x : Binary64) : Bool :=
  signBit ≤ x.bits.toNat

def magnitude (x : Binary64) : Nat :=
  x.bits.toNat % signBit

/-- The value of sign-free bits below `infinityBits`. -/
def magnitudeValue (m : Nat) : Rat :=
  let field : Nat := m / leadingBit
  let fraction : Nat := m % leadingBit
  if field = 0 then (fraction : Rat) * 2 ^ (-1074 : Int)
  else ((leadingBit + fraction : Nat) : Rat) * 2 ^ ((field : Int) - 1075)

inductive Reading where
  | nan
  | infinite (negative : Bool)
  | finite (negative : Bool) (value : Rat)
  deriving DecidableEq

def reading (x : Binary64) : Reading :=
  if infinityBits < x.magnitude then .nan
  else if x.magnitude = infinityBits then .infinite x.isNegative
  else
    let value := magnitudeValue x.magnitude
    .finite x.isNegative (if x.isNegative then -value else value)

def ofMagnitude (negative : Bool) (m : Nat) : Binary64 :=
  ⟨.ofNat (if negative then signBit + m else m)⟩

def nan : Binary64 := ofMagnitude false (infinityBits + leadingBit / 2)

def infinity (negative : Bool) : Binary64 := ofMagnitude negative infinityBits

def zero (negative : Bool) : Binary64 := ofMagnitude negative 0

theorem magnitude_ofMagnitude {m : Nat} (small : m < signBit) (negative : Bool) :
    (ofMagnitude negative m).magnitude = m := by
  simp only [signBit] at small
  simp only [ofMagnitude, magnitude, signBit, UInt64.toNat_ofNat']
  cases negative <;> simp <;> omega

theorem isNegative_ofMagnitude {m : Nat} (small : m < signBit) (negative : Bool) :
    (ofMagnitude negative m).isNegative = negative := by
  simp only [signBit] at small
  simp only [ofMagnitude, isNegative, signBit, UInt64.toNat_ofNat']
  cases negative <;> simp <;> omega

end Binary64

end Chip8
