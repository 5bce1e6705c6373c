import Chip8.Instruction.Encoding
import Chip8.Proofs.Machine.Cycle
import Chip8.Proofs.Screen.Sprite

/-!
# Drawing

Main statements: `sprite_drawn`, a draw instruction flips the cells of its sprite, raises the flag exactly
if one of them was lit, and does nothing else; `Draws.lit_eq`, after any number of draws the cells under
an odd number of the sprites have changed. Hence the order of the draws does not matter, and a sprite
drawn twice leaves no trace.
-/

namespace Chip8.Machine

open Instruction (decode? decode?_eq_some_iff)

/-- The sprite that a draw instruction finds. -/
def sprite (m : Machine) (x y : Register) (height : Nibble) : Sprite :=
  { x := m.registers.get x, y := m.registers.get y, height, index := m.index }

section

variable (m : Machine) (x y : Register) (height : Nibble)

theorem lit_draw {p : Nat} (inside : p < 2048) :
    (m.draw x y height).screen.lit p =
      (m.screen.lit p ^^ decide (p ∈ (m.sprite x y height).cells m.memory)) :=
  (m.sprite x y height).lit_draw m.memory m.screen inside

theorem registers_draw :
    (m.draw x y height).registers =
      m.registers.set Registers.flag
        (if ∃ p ∈ (m.sprite x y height).cells m.memory, m.screen.lit p = true then 1 else 0) :=
  congrArg (m.registers.set Registers.flag)
    (if_congr ((m.sprite x y height).hit_draw m.memory m.screen) rfl rfl)

theorem flag_draw :
    (m.draw x y height).registers.get Registers.flag =
      if ∃ p ∈ (m.sprite x y height).cells m.memory, m.screen.lit p = true then 1 else 0 := by
  rw [registers_draw, Registers.get_set, if_pos rfl]

theorem draw_eq :
    m.draw x y height =
      { m with screen := (m.draw x y height).screen, registers := (m.draw x y height).registers } :=
  rfl

end

/-- Drawing flips the cells of the sprite, no two of whose places share a cell, and sets the flag if one
of them was lit. The position is read before the flag is written. -/
theorem sprite_drawn (m : Machine) {x y : Register} {height : Nibble}
    (fetched : m.fetch = 0xD000 + 0x100 * x + 0x10 * y + height) :
    let sprite : Sprite := ⟨m.registers.get x, m.registers.get y, height, m.index⟩
    let cells := sprite.cells m.memory
    (∀ row < height.val, ∀ column < 8, ∀ row' < height.val, ∀ column' < 8,
      sprite.cell row column = sprite.cell row' column' → row = row' ∧ column = column') ∧
    ∃ screen, (∀ p < 2048, screen.lit p ≠ m.screen.lit p ↔ p ∈ cells) ∧
      m.cycle =
        { machine := { m with
            pc := wrap (m.pc + 2)
            screen
            registers := m.registers.set Registers.flag (if ∃ p ∈ cells, m.screen.lit p = true then 1 else 0) }
          failure := none } := by
  intro sprite cells
  have decoded : decode? m.fetch = some (.draw x y height) := decode?_eq_some_iff.2 fetched.symm
  refine ⟨?_, (m.advance.draw x y height).screen, ?_, ?_⟩
  · intro row low column narrow row' low' column' narrow' same
    exact Screen.cell_inj (by omega) (by omega) (by omega) (by omega) same
  · intro p inside
    rw [lit_draw m.advance x y height inside]
    have same : m.advance.screen.lit p = m.screen.lit p := rfl
    have same' : (m.advance.sprite x y height).cells m.advance.memory = cells := rfl
    rw [same, same']
    cases m.screen.lit p <;> simp
  · have drawn := registers_draw m.advance x y height
    simp only [cycle, decoded, execute]
    rw [draw_eq, drawn]
    rfl

/-- A sprite at (62, 30) that leaves the screen at the right and at the bottom, and whose rows go around
the end of the memory into the font. Its column stands in the flag. -/
theorem sprite_drawn_around :
    let m : Machine := { fresh .default .silent with
      memory := (Memory.zero.store 0 [0xF0, 0xDF, 0x03]).store 0xFFE [0x80, 0xFF], pc := 1,
      index := 0xFFE, registers := (Registers.zero.set 0 30).set Registers.flag 62,
      screen := Screen.blank.flip 1 }
    m.fetch = 0xD000 + 0x100 * (15 : Register) + 0x10 * (0 : Register) + (3 : Nibble) ∧
      m.cycle.failure = none ∧ m.cycle.machine.registers.get Registers.flag = 1 ∧
      m.cycle.machine.screen.lit 1 = false ∧ m.cycle.machine.pc = 3 := by
  intro m
  have fetched : m.fetch = 0xD000 + 0x100 * (15 : Register) + 0x10 * (0 : Register) + (3 : Nibble) := by
    decide +kernel
  obtain ⟨-, screen, flipped, cycled⟩ := sprite_drawn m fetched
  have covered : (Sprite.mk 62 30 3 0xFFE).cell 1 3 ∈ (Sprite.mk 62 30 3 0xFFE).cells m.memory :=
    Sprite.cell_mem_cells (by decide) (by decide) (by decide +kernel)
  have lit : m.screen.lit 1 = true := by decide +kernel
  have changed : screen.lit 1 ≠ m.screen.lit 1 := (flipped 1 (by decide)).2 covered
  rw [cycled]
  refine ⟨fetched, rfl, ?_, ?_, rfl⟩
  · rw [Registers.get_set, if_pos rfl, if_pos ⟨1, covered, lit⟩]
  · simpa [lit] using changed

/-! ## Draws one after another -/

/-- From the first machine to the last, the sprites are drawn one after another. Before and after each
of them everything but the screen and the memory may change. -/
inductive Draws : Machine → List Sprite → Machine → Prop
  | done (m : Machine) : Draws m [] m
  | draw {m drawn n : Machine} {rest : List Sprite} {x y : Register} {height : Nibble}
      (executed : m.execute (.draw x y height) = .ok drawn) (others : Draws drawn rest n) :
      Draws m (m.sprite x y height :: rest) n
  | change {m n : Machine} {sprites : List Sprite} (other : Machine) (screen : other.screen = m.screen)
      (memory : other.memory = m.memory) (others : Draws other sprites n) : Draws m sprites n

/-- How many of the sprites cover cell `p`. -/
def layers (memory : Memory) (sprites : List Sprite) (p : Nat) : Nat :=
  sprites.countP fun s => p ∈ s.cells memory

theorem odd_layers_cons (memory : Memory) (s : Sprite) (rest : List Sprite) (p : Nat) :
    decide (layers memory (s :: rest) p % 2 = 1) =
      (decide (p ∈ s.cells memory) ^^ decide (layers memory rest p % 2 = 1)) := by
  have counted : layers memory (s :: rest) p =
      layers memory rest p + if p ∈ s.cells memory then 1 else 0 := by
    simp [layers, List.countP_cons]
  rw [counted, Bool.eq_iff_iff]
  by_cases covered : p ∈ s.cells memory
  · simp [covered]
    omega
  · simp [covered]

theorem Draws.lit_eq {m n : Machine} {sprites : List Sprite} (ran : m.Draws sprites n) {p : Nat}
    (inside : p < 2048) :
    n.screen.lit p = (m.screen.lit p ^^ decide (layers m.memory sprites p % 2 = 1)) := by
  induction ran with
  | done m => simp [layers]
  | @draw m drawn n rest x y height executed _ ih =>
      cases executed
      -- A draw leaves the memory alone, so the layers above it are counted as before.
      rw [ih, lit_draw m x y height inside, odd_layers_cons, Bool.xor_assoc]
      rfl
  | change other screen memory _ ih => rw [ih, screen, memory]

theorem exists_draws (m : Machine) (sprites : List Sprite) : ∃ n, m.Draws sprites n := by
  induction sprites generalizing m with
  | nil => exact ⟨m, .done m⟩
  | cons s rest ih =>
      let ready : Machine :=
        { m with index := s.index, registers := (m.registers.set 0 s.x).set 1 s.y }
      obtain ⟨n, others⟩ := ih (ready.draw 0 1 s.height)
      have found : ready.sprite 0 1 s.height = s := by
        simp [ready, sprite, Registers.get_set]
      have drawn : ready.Draws (s :: rest) n := by
        rw [← found]
        exact .draw rfl others
      exact ⟨n, .change ready rfl rfl drawn⟩

/-! ## Twice the same sprite -/

section

variable (m : Machine) {x y : Register} (height : Nibble)

theorem sprite_draw (column : x ≠ Registers.flag) (row : y ≠ Registers.flag) :
    (m.draw x y height).sprite x y height = m.sprite x y height := by
  simp only [sprite, registers_draw, Registers.get_set, if_neg column.symm, if_neg row.symm]
  rfl

theorem screen_draw_draw (column : x ≠ Registers.flag) (row : y ≠ Registers.flag) :
    ((m.draw x y height).draw x y height).screen = m.screen := by
  apply Screen.ext_lit
  intro p inside
  have same : (m.draw x y height).memory = m.memory := rfl
  rw [lit_draw _ x y height inside, lit_draw m x y height inside, sprite_draw m height column row, same,
    Bool.xor_assoc, Bool.xor_self, Bool.xor_false]

/-- The second draw finds lit what was dark before the first. -/
theorem flag_draw_draw (column : x ≠ Registers.flag) (row : y ≠ Registers.flag) :
    ((m.draw x y height).draw x y height).registers.get Registers.flag =
      if ∃ p ∈ (m.sprite x y height).cells m.memory, m.screen.lit p = false then 1 else 0 := by
  have same : (m.draw x y height).memory = m.memory := rfl
  have flipped : ∀ p ∈ (m.sprite x y height).cells m.memory,
      (m.draw x y height).screen.lit p = true ↔ m.screen.lit p = false := by
    intro p covered
    rw [lit_draw m x y height (Sprite.lt_of_mem_cells covered)]
    simp [covered]
  rw [flag_draw, sprite_draw m height column row, same]
  exact if_congr (exists_congr fun p => and_congr_right (flipped p)) rfl rfl

end

/-- Sprites drawn in any order leave the same screen, and a sprite drawn twice leaves none of itself. Of
the two draws the first reports a cell that was lit at the start, the second one that was dark. -/
theorem draws_commute_and_cancel (m : Machine) :
    (∀ sprites, ∃ n, m.Draws sprites n) ∧
    (∀ (m' n n' : Machine) (sprites sprites' : List Sprite), m.Draws sprites n →
      m'.Draws sprites' n' → m'.screen = m.screen → m'.memory = m.memory → sprites.Perm sprites' →
      n.screen = n'.screen) ∧
    ∀ x y height, x ≠ Registers.flag → y ≠ Registers.flag →
      let cells := (m.sprite x y height).cells m.memory
      ∃ once twice, m.execute (.draw x y height) = .ok once ∧
        once.execute (.draw x y height) = .ok twice ∧ twice.screen = m.screen ∧
        once.registers.get Registers.flag = (if ∃ p ∈ cells, m.screen.lit p = true then 1 else 0) ∧
        twice.registers.get Registers.flag = (if ∃ p ∈ cells, m.screen.lit p = false then 1 else 0) ∧
        (cells.Nonempty →
          once.registers.get Registers.flag = 1 ∨ twice.registers.get Registers.flag = 1) := by
  refine ⟨exists_draws m, ?_, ?_⟩
  · intro m' n n' sprites sprites' ran ran' screen memory order
    apply Screen.ext_lit
    intro p inside
    have same : layers m.memory sprites p = layers m.memory sprites' p := order.countP_eq _
    rw [ran.lit_eq inside, ran'.lit_eq inside, screen, memory, same]
  · intro x y height column row cells
    refine ⟨m.draw x y height, (m.draw x y height).draw x y height, rfl, rfl,
      screen_draw_draw m height column row, flag_draw m x y height,
      flag_draw_draw m height column row, ?_⟩
    rintro ⟨p, covered⟩
    cases lit : m.screen.lit p with
    | true =>
        left
        rw [flag_draw, if_pos ⟨p, covered, lit⟩]
    | false =>
        right
        rw [flag_draw_draw m height column row, if_pos ⟨p, covered, lit⟩]

/-- Two digits that overlap around the corner of the screen, in both orders, and one of them twice where
one of its cells is lit at the start. -/
theorem draws_around_the_corner :
    let m : Machine := { fresh .default .silent with
      registers := (Registers.zero.set 0 62).set 1 31, screen := Screen.blank.flip 0 }
    let digit : Sprite := ⟨62, 31, 5, 0⟩
    let other : Sprite := ⟨60, 30, 5, 40⟩
    (∃ n n', m.Draws [digit, other] n ∧ m.Draws [other, digit] n' ∧ n.screen = n'.screen) ∧
      ∃ once twice, m.execute (.draw 0 1 5) = .ok once ∧ once.execute (.draw 0 1 5) = .ok twice ∧
        twice.screen = m.screen ∧ once.registers.get Registers.flag = 1 ∧
        twice.registers.get Registers.flag = 1 := by
  intro m digit other
  obtain ⟨drawn, ordered, twins⟩ := draws_commute_and_cancel m
  obtain ⟨n, ran⟩ := drawn [digit, other]
  obtain ⟨n', ran'⟩ := drawn [other, digit]
  have same := ordered m n n' _ _ ran ran' rfl rfl (.swap other digit [])
  obtain ⟨once, twice, first, second, restored, hit, hit', -⟩ :=
    twins 0 1 5 (by decide) (by decide)
  have lit : ∃ p ∈ digit.cells m.memory, m.screen.lit p = true :=
    ⟨digit.cell 0 2, Sprite.cell_mem_cells (by decide) (by decide) (by decide +kernel), by decide +kernel⟩
  have dark : ∃ p ∈ digit.cells m.memory, m.screen.lit p = false :=
    ⟨digit.cell 0 0, Sprite.cell_mem_cells (by decide) (by decide) (by decide +kernel), by decide +kernel⟩
  exact ⟨⟨n, n', ran, ran', same⟩, once, twice, first, second, restored, hit.trans (if_pos lit),
    hit'.trans (if_pos dark)⟩

end Chip8.Machine
