import Chip8.Binary64.Basic

/-!
# Rounding to binary64

A rational is rounded to the nearest number, a tie going to the even significand, and to an infinity
beyond the largest finite number.
-/

namespace Chip8.Binary64

/-- The nearest integer, of two equally near ones the even one. -/
def roundHalfEven (q : Rat) : Int :=
  let below := q.floor
  let excess := q - below
  if excess < 1 / 2 then below
  else if 1 / 2 < excess then below + 1
  else below + below % 2

/-- The exponent of the largest power of two that is at most `q`, for positive `q`. -/
def floorLog2 (q : Rat) : Int :=
  let estimate := (q.num.natAbs.log2 : Int) - q.den.log2
  if q < 2 ^ estimate then estimate - 1 else estimate

/-- The weight of the last place of a number near `q`, as an exponent of two. -/
def lastPlace (q : Rat) : Int :=
  max (floorLog2 q) (-1022) - 52

/-- The sign-free bits of the number nearest to `q`, for positive `q`. A significand that rounds up
to the next power of two carries into the exponent field. -/
def roundMagnitude (q : Rat) : Nat :=
  let place := lastPlace q
  let significand := roundHalfEven (q / 2 ^ place)
  min ((place + 1074).toNat * leadingBit + significand.toNat) infinityBits

/-- The number nearest to `q`; a zero takes the given sign. -/
def ofRat (negativeZero : Bool) (q : Rat) : Binary64 :=
  if q = 0 then zero negativeZero
  else if q < 0 then ofMagnitude true (roundMagnitude (-q))
  else ofMagnitude false (roundMagnitude q)

end Chip8.Binary64
