import Chip8.Memory
import Chip8.Nibble
import Chip8.Screen
import Mathlib.Data.Finset.Image
import Mathlib.Data.Finset.Prod

/-!
# Sprites on the screen

A sprite covers the cells under the set bits of its rows. Main statements: `lit_draw`, drawing it flips
these cells and no others, and `hit_draw`, it reports a hit exactly if one of them was lit before.
Neither depends on the order in which the cells are taken, as `nodup_spriteCells`, no cell is taken
twice.
-/

namespace Chip8

/-- A sprite to draw: the position of its top left corner, its height and the address of its rows. -/
structure Sprite where
  x : UInt8
  y : UInt8
  height : Nibble
  index : Int
  deriving DecidableEq, Repr

namespace Sprite

/-- The cell in a row and a column of the sprite. -/
def cell (s : Sprite) (row column : Nat) : Nat :=
  (s.x.toNat + column + (s.y.toNat + row) * 64) % 2048

/-- The rows and columns of the bits that are set. -/
def bits (s : Sprite) (memory : Memory) : Finset (Nat × Nat) :=
  (Finset.range s.height ×ˢ Finset.range 8).filter fun bit =>
    (memory.read (wrap (s.index + bit.1))).toNat.testBit (7 - bit.2)

/-- The cells that the sprite covers. -/
def cells (s : Sprite) (memory : Memory) : Finset Nat :=
  (s.bits memory).image fun bit => s.cell bit.1 bit.2

def rows (s : Sprite) (memory : Memory) : List UInt8 :=
  memory.block s.index s.height

end Sprite

namespace Screen

theorem ext_lit {s t : Screen} (same : ∀ p < 2048, s.lit p = t.lit p) : s = t := by
  have cells : s.cells = t.cells := by
    apply Vector.ext
    intro p inside
    simpa [lit, Nat.mod_eq_of_lt inside] using same p inside
  cases s
  cases t
  exact congrArg Screen.mk cells

/-! ## The cells of a sprite -/

/-- Cells of different rows or columns differ, as long as the sprite does not go all around the screen. -/
theorem cell_inj {x y row row' column column' : Nat} (low : row < 32) (low' : row' < 32)
    (narrow : column < 64) (narrow' : column' < 64)
    (same : (x + column + (y + row) * 64) % 2048 = (x + column' + (y + row') * 64) % 2048) :
    row = row' ∧ column = column' := by
  omega

theorem mem_rowCells {x y p : Nat} {b : UInt8} :
    p ∈ rowCells x y b ↔
      ∃ column < 8, b.toNat.testBit (7 - column) = true ∧ (x + column + y * 64) % 2048 = p := by
  simp [rowCells]

theorem mem_spriteCells {x y p : Nat} {sprite : List UInt8} :
    p ∈ spriteCells x y sprite ↔
      ∃ row b, sprite[row]? = some b ∧ ∃ column < 8, b.toNat.testBit (7 - column) = true ∧
        (x + column + (y + row) * 64) % 2048 = p := by
  induction sprite generalizing y with
  | nil => simp [spriteCells]
  | cons b rest ih =>
      rw [spriteCells, List.mem_append, mem_rowCells, ih]
      constructor
      · rintro (here | ⟨row, b', found, later⟩)
        · exact ⟨0, b, rfl, here⟩
        · rw [Nat.add_right_comm y 1 row] at later
          exact ⟨row + 1, b', found, later⟩
      · rintro ⟨row, b', found, column⟩
        cases row with
        | zero =>
            cases found
            exact Or.inl column
        | succ row =>
            rw [← Nat.add_assoc, Nat.add_right_comm y row 1] at column
            exact Or.inr ⟨row, b', found, column⟩

theorem lt_of_mem_spriteCells {x y p : Nat} {sprite : List UInt8} (member : p ∈ spriteCells x y sprite) :
    p < 2048 := by
  obtain ⟨row, b, -, column, -, -, rfl⟩ := mem_spriteCells.1 member
  exact Nat.mod_lt _ (by decide)

theorem nodup_rowCells (x y : Nat) (b : UInt8) : (rowCells x y b).Nodup := by
  rw [rowCells, List.Nodup, List.pairwise_filterMap]
  refine List.Pairwise.imp_of_mem ?_ List.pairwise_lt_range
  intro column column' inside inside' before p found p' found' same
  simp only [Option.ite_none_right_eq_some, Option.some.injEq] at found found'
  simp only [List.mem_range] at inside inside'
  have cells : (x + column + (y + 0) * 64) % 2048 = (x + column' + (y + 0) * 64) % 2048 :=
    found.2.trans (same.trans found'.2.symm)
  have columns := (cell_inj (by decide) (by decide) (by omega) (by omega) cells).2
  omega

/-- No cell is covered twice by a sprite of up to 32 rows. -/
theorem nodup_spriteCells (x y : Nat) {sprite : List UInt8} (fits : sprite.length ≤ 32) :
    (spriteCells x y sprite).Nodup := by
  induction sprite generalizing y with
  | nil => exact List.nodup_nil
  | cons b rest ih =>
      rw [List.length_cons] at fits
      refine List.nodup_append.2 ⟨nodup_rowCells x y b, ih (y + 1) (by omega), ?_⟩
      -- The cells of the first row are those of row 0, the others lie in the rows behind it.
      rintro p first q later rfl
      obtain ⟨column, narrow, -, here⟩ := mem_rowCells.1 first
      obtain ⟨row, b', found, column', narrow', -, there⟩ := mem_spriteCells.1 later
      have low : row < rest.length := (List.getElem?_eq_some_iff.1 found).1
      rw [Nat.add_right_comm y 1 row] at there
      have cells : (x + column + (y + 0) * 64) % 2048 = (x + column' + (y + (row + 1)) * 64) % 2048 :=
        here.trans there.symm
      have rows := (cell_inj (by decide) (by omega) (by omega) (by omega) cells).1
      omega

/-! ## Drawing -/

theorem lit_flip_of_lt (s : Screen) {p q : Nat} (inside : p < 2048) (inside' : q < 2048) :
    (s.flip p).lit q = if p = q then !s.lit p else s.lit q := by
  rw [lit_flip, Nat.mod_eq_of_lt inside, Nat.mod_eq_of_lt inside']

/-- Flipping distinct cells one after another flips each of them once. -/
theorem lit_flipAll (s : Screen) {cells : List Nat} (inside : ∀ p ∈ cells, p < 2048)
    (distinct : cells.Nodup) {q : Nat} (within : q < 2048) :
    (s.flipAll cells).1.lit q = (s.lit q ^^ decide (q ∈ cells)) := by
  induction cells generalizing s with
  | nil => simp [flipAll]
  | cons p rest ih =>
      obtain ⟨first, others⟩ := List.forall_mem_cons.1 inside
      obtain ⟨new, distinct⟩ := List.nodup_cons.1 distinct
      simp only [flipAll, ih (s.flip p) others distinct, lit_flip_of_lt s first within, List.mem_cons]
      by_cases here : p = q
      · subst here
        simp [new]
      · simp [here, Ne.symm here]

/-- Among distinct cells, none is found lit because it has been flipped before. -/
theorem hit_flipAll (s : Screen) {cells : List Nat} (inside : ∀ p ∈ cells, p < 2048)
    (distinct : cells.Nodup) : (s.flipAll cells).2 = true ↔ ∃ p ∈ cells, s.lit p = true := by
  induction cells generalizing s with
  | nil => simp [flipAll]
  | cons p rest ih =>
      obtain ⟨first, others⟩ := List.forall_mem_cons.1 inside
      obtain ⟨new, distinct⟩ := List.nodup_cons.1 distinct
      have kept : ∀ q ∈ rest, (s.flip p).lit q = s.lit q := by
        intro q member
        rw [lit_flip_of_lt s first (others q member), if_neg]
        rintro rfl
        exact new member
      rw [List.exists_mem_cons_iff]
      simp only [flipAll, Bool.or_eq_true, ih (s.flip p) others distinct]
      exact or_congr_right (exists_congr fun q => and_congr_right fun member => by rw [kept q member])

end Screen

namespace Sprite

variable (s : Sprite) (memory : Memory)

theorem getElem?_rows {row : Nat} {b : UInt8} :
    (s.rows memory)[row]? = some b ↔ row < s.height ∧ memory.read (s.index + row) = b := by
  simp [rows, Memory.block, List.getElem?_eq_some_iff]

theorem length_rows : (s.rows memory).length = s.height := by
  simp [rows, Memory.block]

theorem mem_cells {p : Nat} :
    p ∈ s.cells memory ↔ p ∈ Screen.spriteCells s.x.toNat s.y.toNat (s.rows memory) := by
  simp only [cells, bits, Finset.mem_image, Finset.mem_filter, Finset.mem_product, Finset.mem_range,
    Prod.exists, Memory.read_wrap, Screen.mem_spriteCells, getElem?_rows]
  constructor
  · rintro ⟨row, column, ⟨⟨low, narrow⟩, set⟩, here⟩
    exact ⟨row, _, ⟨low, rfl⟩, column, narrow, set, here⟩
  · rintro ⟨row, _, ⟨low, rfl⟩, column, narrow, set, here⟩
    exact ⟨row, column, ⟨⟨low, narrow⟩, set⟩, here⟩

variable {s memory} in
theorem cell_mem_cells {row column : Nat} (low : row < s.height) (narrow : column < 8)
    (set : (memory.read (wrap (s.index + row))).toNat.testBit (7 - column) = true) :
    s.cell row column ∈ s.cells memory := by
  refine Finset.mem_image.2 ⟨(row, column), ?_, rfl⟩
  simp [bits, low, narrow, set]

variable {s memory} in
theorem lt_of_mem_cells {p : Nat} (member : p ∈ s.cells memory) : p < 2048 :=
  Screen.lt_of_mem_spriteCells ((s.mem_cells memory).1 member)

theorem nodup_spriteCells :
    (Screen.spriteCells s.x.toNat s.y.toNat (s.rows memory)).Nodup := by
  apply Screen.nodup_spriteCells
  rw [length_rows]
  omega

/-- Drawing flips the cells of the sprite. -/
theorem lit_draw (screen : Screen) {p : Nat} (inside : p < 2048) :
    (screen.draw s.x.toNat s.y.toNat (s.rows memory)).1.lit p =
      (screen.lit p ^^ decide (p ∈ s.cells memory)) := by
  rw [Screen.draw, Screen.lit_flipAll screen (fun _ => Screen.lt_of_mem_spriteCells)
    (s.nodup_spriteCells memory) inside]
  simp only [mem_cells]

theorem hit_draw (screen : Screen) :
    (screen.draw s.x.toNat s.y.toNat (s.rows memory)).2 = true ↔
      ∃ p ∈ s.cells memory, screen.lit p = true := by
  rw [Screen.draw, Screen.hit_flipAll screen (fun _ => Screen.lt_of_mem_spriteCells)
    (s.nodup_spriteCells memory)]
  simp only [mem_cells]

end Sprite

end Chip8
