import Chip8.Instruction.Encoding

/-!
# The table of instructions

The words of the instructions by their hexadecimal digits. Main statement: `decode?_eq_none_iff`, a word
that fits no line of the table is no instruction, and every other word is one.
-/

namespace Chip8.Instruction

/-- Words by their four hexadecimal digits, of which all but the first may be left open. -/
structure Pattern where
  group : Nat
  x : Option Nat
  y : Option Nat
  n : Option Nat
  deriving DecidableEq, Repr

namespace Pattern

/-- Whether the digits behind the first are those of the pattern, where it has any. -/
def fitsRest (p : Pattern) (word : Nat) : Bool :=
  p.x.all (word / 0x100 % 0x10 == ·) && p.y.all (word / 0x10 % 0x10 == ·) &&
    p.n.all (word % 0x10 == ·)

def fits (p : Pattern) (word : Nat) : Bool :=
  word / 0x1000 == p.group && p.fitsRest word

end Pattern

def table : List Pattern :=
  [⟨0x0, some 0x0, some 0xE, some 0x0⟩, -- 00E0
   ⟨0x0, some 0x0, some 0xE, some 0xE⟩, -- 00EE
   ⟨0x1, none, none, none⟩, -- 1nnn
   ⟨0x2, none, none, none⟩, -- 2nnn
   ⟨0x3, none, none, none⟩, -- 3xkk
   ⟨0x4, none, none, none⟩, -- 4xkk
   ⟨0x5, none, none, some 0x0⟩, -- 5xy0
   ⟨0x9, none, none, some 0x0⟩, -- 9xy0
   ⟨0x6, none, none, none⟩, -- 6xkk
   ⟨0x7, none, none, none⟩, -- 7xkk
   ⟨0x8, none, none, some 0x0⟩, -- 8xy0
   ⟨0x8, none, none, some 0x1⟩, -- 8xy1
   ⟨0x8, none, none, some 0x2⟩, -- 8xy2
   ⟨0x8, none, none, some 0x3⟩, -- 8xy3
   ⟨0x8, none, none, some 0x4⟩, -- 8xy4
   ⟨0x8, none, none, some 0x5⟩, -- 8xy5
   ⟨0x8, none, none, some 0x7⟩, -- 8xy7
   ⟨0x8, none, none, some 0x6⟩, -- 8xy6
   ⟨0x8, none, none, some 0xE⟩, -- 8xyE
   ⟨0xA, none, none, none⟩, -- Annn
   ⟨0xB, none, none, none⟩, -- Bnnn
   ⟨0xC, none, none, none⟩, -- Cxkk
   ⟨0xD, none, none, none⟩, -- Dxyn
   ⟨0xE, none, some 0x9, some 0xE⟩, -- Ex9E
   ⟨0xE, none, some 0xA, some 0x1⟩, -- ExA1
   ⟨0xF, none, some 0x0, some 0x7⟩, -- Fx07
   ⟨0xF, none, some 0x0, some 0xA⟩, -- Fx0A
   ⟨0xF, none, some 0x1, some 0x5⟩, -- Fx15
   ⟨0xF, none, some 0x1, some 0x8⟩, -- Fx18
   ⟨0xF, none, some 0x1, some 0xE⟩, -- Fx1E
   ⟨0xF, none, some 0x2, some 0x9⟩, -- Fx29
   ⟨0xF, none, some 0x3, some 0x3⟩, -- Fx33
   ⟨0xF, none, some 0x5, some 0x5⟩, -- Fx55
   ⟨0xF, none, some 0x6, some 0x5⟩] -- Fx65

/-- The lines of the table that start with digit `group`. -/
def lines (group : Nat) : List Pattern :=
  table.filter fun p => group == p.group

theorem forall_fits_iff {word : Nat} :
    (∀ p ∈ table, p.fits word = false) ↔ ∀ p ∈ lines (word / 0x1000), p.fitsRest word = false := by
  simp only [lines, List.mem_filter, Pattern.fits, Bool.and_eq_false_imp, and_imp]

theorem lines_eq_nil {group : Nat} (beyond : 0xF < group) : lines group = [] := by
  simp [lines, table]
  omega

theorem ofCode?_eq_none_iff {n : Nat} :
    Operation.ofCode? n = none ↔ n ∉ [0x0, 0x1, 0x2, 0x3, 0x4, 0x5, 0x6, 0x7, 0xE] := by
  unfold Operation.ofCode?
  split <;> simp_all

theorem ofMiscellany?_eq_none_iff {x : Register} {last : Nat} :
    ofMiscellany? x last = none ↔
      last ∉ [0x07, 0x0A, 0x15, 0x18, 0x1E, 0x29, 0x33, 0x55, 0x65] := by
  unfold ofMiscellany?
  split <;> simp_all

theorem select_eq_none_iff {p q : Prop} [Decidable p] [Decidable q] {i j : Instruction} :
    (if p then some i else if q then some j else none) = none ↔ ¬ p ∧ ¬ q := by
  split <;> simp_all

theorem fitsRest_byte {p : Pattern} (free : p.x = none) (word : Nat) :
    p.fitsRest (word % 0x100) = p.fitsRest word := by
  have y : word % 0x100 / 0x10 % 0x10 = word / 0x10 % 0x10 := by omega
  have n : word % 0x100 % 0x10 = word % 0x10 := by omega
  simp only [Pattern.fitsRest, free, Option.all_none, y, n]

theorem miscellany_lines (last : Fin 0x100) :
    (last : Nat) ∉ [0x07, 0x0A, 0x15, 0x18, 0x1E, 0x29, 0x33, 0x55, 0x65] ↔
      ∀ p ∈ lines 0xF, p.fitsRest last = false := by
  decide +revert +kernel

theorem decode?_eq_none_iff {word : Nat} :
    decode? word = none ↔ ∀ p ∈ table, p.fits word = false := by
  rw [forall_fits_iff]
  unfold decode?
  simp only
  split
  case h_16 group =>
    have free : ∀ p ∈ lines 0xF, p.x = none := by decide
    rw [group, ofMiscellany?_eq_none_iff, miscellany_lines ⟨word % 0x100, Nat.mod_lt word (by decide)⟩]
    exact forall₂_congr fun p line => by rw [fitsRest_byte (free p line)]
  case h_17 =>
    have beyond : 0xF < word / 0x1000 := by grind
    simp [lines_eq_nil beyond]
  all_goals
    rename_i group
    simp [lines, table, group, Pattern.fitsRest, select_eq_none_iff, ofCode?_eq_none_iff]
  all_goals omega

end Chip8.Instruction
