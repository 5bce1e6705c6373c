/-!
# The screen

64 columns and 32 rows of cells, numbered row by row from the top left. A sprite is a list of bytes,
one a row with its highest bit leftmost. Positions wrap around by cell number, so a sprite that leaves
a row on the right goes on in the next one.
-/

namespace Chip8

def screenWidth : Nat := 64

def screenHeight : Nat := 32

structure Screen where
  cells : Vector Bool 2048
  deriving DecidableEq

namespace Screen

def blank : Screen :=
  ⟨.replicate 2048 false⟩

def lit (s : Screen) (p : Nat) : Bool :=
  s.cells[Fin.ofNat 2048 p]

def flip (s : Screen) (p : Nat) : Screen :=
  ⟨s.cells.set (p % 2048) (!s.lit p) (Nat.mod_lt _ (by decide))⟩

/-- The cells of one sprite row with its left end at column `x` of row `y`. -/
def rowCells (x y : Nat) (b : UInt8) : List Nat :=
  (List.range 8).filterMap fun column =>
    if b.toNat.testBit (7 - column) then some ((x + column + y * 64) % 2048) else none

def spriteCells (x y : Nat) : List UInt8 → List Nat
  | [] => []
  | b :: rest => rowCells x y b ++ spriteCells x (y + 1) rest

/-- Flips the cells in order and says whether one of them was lit when its turn came. -/
def flipAll (s : Screen) : List Nat → Screen × Bool
  | [] => (s, false)
  | p :: rest =>
      let (flipped, hit) := (s.flip p).flipAll rest
      (flipped, s.lit p || hit)

def draw (s : Screen) (x y : Nat) (sprite : List UInt8) : Screen × Bool :=
  s.flipAll (spriteCells x y sprite)

def row (s : Screen) (y : Nat) : List Bool :=
  (List.range screenWidth).map fun x => s.lit (x + y * screenWidth)

theorem lit_flip (s : Screen) (p q : Nat) :
    (s.flip p).lit q = if p % 2048 = q % 2048 then !s.lit p else s.lit q := by
  simp [lit, flip, Vector.getElem_set]

end Screen

end Chip8
