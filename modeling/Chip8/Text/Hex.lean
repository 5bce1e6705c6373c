/-!
# Hexadecimal numerals

Numerals padded with zeros to a width; a minus sign takes one place of the width.
-/

namespace Chip8.Text.Hex

def digits (n : Nat) : List Char :=
  Nat.toDigits 16 n

def pad (width : Nat) (cs : List Char) : List Char :=
  List.replicate (width - cs.length) '0' ++ cs

/-- Lower-case digits of `n`, at least `width` of them. -/
def lower (width n : Nat) : String :=
  String.ofList (pad width (digits n))

/-- Upper-case digits of `i`; the sign of a negative number counts towards the width. -/
def upperSigned (width : Nat) (i : Int) : String :=
  let cs := (digits i.natAbs).map Char.toUpper
  if i < 0 then String.ofList ('-' :: pad (width - 1) cs) else String.ofList (pad width cs)

def byte (b : UInt8) : String :=
  lower 2 b.toNat

theorem length_pad (width : Nat) (cs : List Char) : (pad width cs).length = max width cs.length := by
  simp only [pad, List.length_append, List.length_replicate]
  omega

end Chip8.Text.Hex
