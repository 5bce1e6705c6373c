import Chip8.Screen

/-!
# Pictures

The picture of a screen has one square block of pixels for each cell, foreground for a lit cell. It is drawn
with the operations of a graphics library: the cells become an array of columns, the array a surface, and the
surface is enlarged into that of the window.
-/

namespace Chip8

inductive Colour where
  | background
  | foreground
  deriving DecidableEq, Repr

structure Picture where
  width : Nat
  height : Nat
  /-- Rows of pixels from the top, each from the left. -/
  pixels : Vector (Vector Colour width) height

namespace Picture

def rows (p : Picture) : List (List Colour) :=
  p.pixels.toList.map Vector.toList

def pixel? (p : Picture) (x y : Nat) : Option Colour :=
  p.pixels[y]?.bind fun row => row[x]?

def ofFn (width height : Nat) (colour : Nat → Nat → Colour) : Picture :=
  { width, height, pixels := .ofFn fun y => .ofFn fun x => colour x y }

theorem pixel?_ofFn (width height : Nat) (colour : Nat → Nat → Colour) (x y : Nat) :
    (ofFn width height colour).pixel? x y = if x < width ∧ y < height then some (colour x y) else none := by
  show ((Vector.ofFn fun j : Fin height => Vector.ofFn fun i : Fin width => colour i j)[y]?.bind
    fun row => row[x]?) = _
  by_cases inColumn : y < height
  · by_cases inRow : x < width <;> simp [inColumn, inRow]
  · simp [inColumn]

theorem pixel?_mk {width height : Nat} (pixels : Vector (Vector Colour width) height) {x y : Nat}
    (inRow : x < width) (inColumn : y < height) :
    (mk width height pixels).pixel? x y = some pixels[y][x] := by
  show (pixels[y]?.bind fun row => row[x]?) = _
  simp [inRow, inColumn]

theorem exists_pixel? {p : Picture} {x y : Nat} (inRow : x < p.width) (inColumn : y < p.height) :
    ∃ colour, p.pixel? x y = some colour := by
  simp [pixel?, inRow, inColumn]

end Picture

/-- The operations of a graphics library on arrays and on surfaces, which are pictures. An array with two
indices has the first one outside. -/
structure Graphics where
  /-- The surface of a new window. -/
  openSurface (width height : Nat) : Picture
  reshape (rows columns : Nat) (flat : Vector UInt8 (rows * columns)) : Vector (Vector UInt8 columns) rows
  transpose {rows columns : Nat} (array : Vector (Vector UInt8 columns) rows) :
    Vector (Vector UInt8 rows) columns
  /-- The one colour where the condition holds and the other elsewhere. -/
  choose {rows columns : Nat} (condition : Vector (Vector Bool columns) rows) (yes no : Colour) :
    Vector (Vector Colour columns) rows
  surfaceOf {width height : Nat} (array : Vector (Vector Colour height) width) : Picture
  scale (source : Picture) (width height : Nat) : Picture
  /-- Draws the source into the target with its top left pixel at `x` and `y`. -/
  blit (target source : Picture) (x y : Nat) : Picture

namespace Graphics

theorem offset_lt {rows columns i j : Nat} (row : i < rows) (column : j < columns) :
    i * columns + j < rows * columns := by
  have below : (i + 1) * columns ≤ rows * columns := Nat.mul_le_mul_right columns row
  rw [Nat.succ_mul] at below
  omega

/-- Pictures are scaled to the nearest pixel. -/
def nearest : Graphics where
  openSurface width height := .ofFn width height fun _ _ => .background
  reshape rows columns flat := .ofFn fun i => .ofFn fun j =>
    have inside := offset_lt i.isLt j.isLt
    flat[i.val * columns + j.val]
  transpose array := .ofFn fun j => .ofFn fun i => array[i][j]
  choose condition yes no := condition.map fun row => row.map fun holds => if holds then yes else no
  surfaceOf {width height} array :=
    { width, height, pixels := .ofFn fun y => .ofFn fun x => array[x][y] }
  scale source width height := .ofFn width height fun x y =>
    (source.pixel? (x * source.width / width) (y * source.height / height)).getD .background
  blit target source x y := .ofFn target.width target.height fun i j =>
    ((if x ≤ i ∧ y ≤ j then source.pixel? (i - x) (j - y) else none).or (target.pixel? i j)).getD .background

end Graphics

/-- A byte for each cell, one if it is lit. -/
def Screen.bytes (s : Screen) : Vector UInt8 (screenHeight * screenWidth) :=
  s.cells.map fun lit => if lit then 1 else 0

theorem Screen.getElem?_bytes (s : Screen) {p : Nat} (inside : p < screenHeight * screenWidth) :
    s.bytes[p]? = some (if s.lit p then 1 else 0) := by
  have inside : p < 2048 := inside
  show (s.cells.map fun lit => if lit then (1 : UInt8) else 0)[p]? = _
  simp [Screen.lit, inside, Nat.mod_eq_of_lt inside]

/-- The colours of the screen, column by column. -/
def Graphics.columns (g : Graphics) (s : Screen) : Vector (Vector Colour screenHeight) screenWidth :=
  let cells := g.transpose (g.reshape screenHeight screenWidth s.bytes)
  g.choose (cells.map fun column => column.map (· == 1)) .foreground .background

/-- Draws the screen over a surface, as large as the surface. -/
def Graphics.drawScreen (g : Graphics) (s : Screen) (surface : Picture) : Picture :=
  g.blit surface (g.scale (g.surfaceOf (g.columns s)) surface.width surface.height) 0 0

end Chip8
