/-!
# Nibbles

Four bits: the number of a register or of a key, or the height of a sprite.
-/

namespace Chip8

abbrev Nibble := Fin 16

/-- The low four bits of `n`. -/
def Nibble.ofNat (n : Nat) : Nibble :=
  Fin.ofNat 16 n

theorem Nibble.val_ofNat (n : Nat) : (Nibble.ofNat n : Nat) = n % 16 := rfl

theorem Nibble.ofNat_eq {n : Nat} (x : Nibble) (value : n % 16 = x.val) : Nibble.ofNat n = x :=
  Fin.ext value

end Chip8
