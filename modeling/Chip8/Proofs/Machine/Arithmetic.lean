import Chip8.Proofs.Machine.Effect

/-!
# Arithmetic

An operation is described by what ties its result and its flag to its operands, not by how it is computed.
Main statements: `relates_apply` and `relates_unique`, the result and the flag of an operation are the only
ones that fit; `calculated_in_place`, these are what a cycle leaves in the registers, whichever of them
coincide. The operands are those from before the cycle, and the flag is written last.
-/

namespace Chip8

namespace Operation

/-- Whether a result, and a flag if there is one, fit the operands. The flag of a sum is its carry, that of
a difference says that nothing was borrowed, and that of a shift is the bit that was moved out. -/
def Relates (a b result : UInt8) : Operation → Option Bool → Prop
  | .copy, none => ∀ k, result.toNat.testBit k = b.toNat.testBit k
  | .or, none => ∀ k, result.toNat.testBit k = (a.toNat.testBit k || b.toNat.testBit k)
  | .and, none => ∀ k, result.toNat.testBit k = (a.toNat.testBit k && b.toNat.testBit k)
  | .xor, none => ∀ k, result.toNat.testBit k = (a.toNat.testBit k ^^ b.toNat.testBit k)
  | .add, some flag => (result.toNat + 256 * flag.toNat : Int) = a.toNat + b.toNat
  | .subtract, some flag => (result.toNat - 256 * (1 - flag.toNat) : Int) = a.toNat - b.toNat
  | .subtractFrom, some flag => (result.toNat - 256 * (1 - flag.toNat) : Int) = b.toNat - a.toNat
  | .shiftRight, some flag => (2 * result.toNat + flag.toNat : Int) = a.toNat
  | .shiftLeft, some flag => (result.toNat + 256 * flag.toNat : Int) = 2 * a.toNat
  | _, _ => False

theorem isSome_apply (o : Operation) (a b : UInt8) : (o.apply a b).2.isSome = o.setsFlag := by
  cases o <;> rfl

theorem sub_of_borrow (a b : UInt8) :
    ((a - b).toNat - 256 * (1 - (decide (b ≤ a)).toNat) : Int) = a.toNat - b.toNat := by
  have left := a.toNat_lt
  have right := b.toNat_lt
  rw [UInt8.toNat_sub]
  by_cases enough : b ≤ a
  · rw [decide_eq_true enough, Bool.toNat_true]
    rw [UInt8.le_iff_toNat_le] at enough
    omega
  · rw [decide_eq_false enough, Bool.toNat_false]
    rw [UInt8.le_iff_toNat_le] at enough
    omega

theorem relates_apply (o : Operation) (a b : UInt8) :
    o.Relates a b (o.apply a b).1 (o.apply a b).2 := by
  have left := a.toNat_lt
  cases o with
  | copy => exact fun k => rfl
  | or =>
      intro k
      show (a ||| b).toNat.testBit k = _
      rw [UInt8.toNat_or, Nat.testBit_or]
  | and =>
      intro k
      show (a &&& b).toNat.testBit k = _
      rw [UInt8.toNat_and, Nat.testBit_and]
  | xor =>
      intro k
      show (a ^^^ b).toNat.testBit k = _
      rw [UInt8.toNat_xor, Nat.testBit_xor]
  | add =>
      have right := b.toNat_lt
      simp only [Relates, apply, UInt8.toNat_add]
      by_cases carry : 0xFF < a.toNat + b.toNat
      · rw [decide_eq_true carry, Bool.toNat_true]
        omega
      · rw [decide_eq_false carry, Bool.toNat_false]
        omega
  | subtract => exact sub_of_borrow a b
  | subtractFrom => exact sub_of_borrow b a
  | shiftRight =>
      have half : (a >>> 1).toNat = a.toNat / 2 := by
        rw [UInt8.toNat_shiftRight, Nat.shiftRight_eq_div_pow]
        rfl
      simp only [Relates, apply, half, Nat.toNat_testBit]
      omega
  | shiftLeft =>
      have double : (a <<< 1).toNat = 2 * a.toNat % 256 := by
        rw [UInt8.toNat_shiftLeft, Nat.shiftLeft_eq, Nat.mul_comm]
        rfl
      simp only [Relates, apply, double, Nat.toNat_testBit]
      omega

section

variable {o : Operation} {a b result result' : UInt8} {flag? flag?' : Option Bool}

theorem bool_of_toNat {p q : Bool} (same : p.toNat = q.toNat) : p = q := by
  cases p <;> cases q <;> first | rfl | cases same

theorem eq_of_testBit {f : Nat → Bool} (fits : ∀ k, result.toNat.testBit k = f k)
    (fits' : ∀ k, result'.toNat.testBit k = f k) : result = result' := by
  apply UInt8.toNat_inj.1
  apply Nat.eq_of_testBit_eq
  exact fun k => (fits k).trans (fits' k).symm

theorem relates_unique (fits : o.Relates a b result flag?) (fits' : o.Relates a b result' flag?') :
    result = result' ∧ flag? = flag?' := by
  have byte := result.toNat_lt
  have byte' := result'.toNat_lt
  -- whether there is a flag depends on the operation alone, so there are both flags or neither
  cases flag? with
  | none =>
      cases flag?' with
      | none =>
          cases o with
          | copy | or | and | xor => exact ⟨eq_of_testBit fits fits', rfl⟩
          | _ => cases fits
      | some flag' => cases o <;> first | cases fits | cases fits'
  | some flag =>
      cases flag?' with
      | none => cases o <;> first | cases fits | cases fits'
      | some flag' =>
          have bit := flag.toNat_lt
          have bit' := flag'.toNat_lt
          have both : result.toNat = result'.toNat ∧ flag.toNat = flag'.toNat := by
            cases o with
            | copy | or | and | xor => cases fits
            | _ =>
                simp only [Relates] at fits fits'
                omega
          refine ⟨UInt8.toNat_inj.1 both.1, congrArg some ?_⟩
          exact bool_of_toNat both.2

end

theorem relates_iff (o : Operation) (a b result : UInt8) (flag? : Option Bool) :
    o.Relates a b result flag? ↔ result = (o.apply a b).1 ∧ flag? = (o.apply a b).2 := by
  constructor
  · exact fun fits => relates_unique fits (o.relates_apply a b)
  · rintro ⟨rfl, rfl⟩
    exact o.relates_apply a b

end Operation

namespace Registers

variable (v : Registers) (o : Operation) (x y : Register)

theorem get_combine_self (kept : x ≠ flag ∨ (o.apply (v.get x) (v.get y)).2 = none) :
    (v.combine o x y).get x = (o.apply (v.get x) (v.get y)).1 := by
  unfold combine
  split
  case h_1 result applied => rw [applied, get_set, if_pos rfl]
  case h_2 result bit applied =>
    -- the flag comes second, so the result stays only in another register
    rw [applied] at kept
    have other : flag ≠ x := by
      rcases kept with other | unflagged
      · exact other.symm
      · cases unflagged
    rw [applied, setFlag, get_set, if_neg other, get_set, if_pos rfl]

theorem get_combine_flag {bit : Bool} (sets : (o.apply (v.get x) (v.get y)).2 = some bit) :
    ((v.combine o x y).get flag).toNat = bit.toNat := by
  unfold combine
  split
  case h_1 result applied =>
    rw [applied] at sets
    cases sets
  case h_2 result bit' applied =>
    rw [applied] at sets
    cases sets
    rw [setFlag, get_set, if_pos rfl]
    cases bit <;> rfl

end Registers

namespace Machine

/-- An operation leaves its result in its register and then its flag, if it has one, in the last register,
both of the operands as they were. Nothing else changes, and an increase leaves no flag. -/
theorem calculated_in_place (m : Machine) (x : Register) :
    let a := m.registers.get x
    let v := m.cycle.machine.registers
    (∀ (o : Operation) (y : Register), m.fetch = (Instruction.combine o x y).encode →
      m.cycle.failure = none ∧ m.cycle.machine = { m.advance with registers := v } ∧
        ∃ result flag?,
          (∀ result' flag?', o.Relates a (m.registers.get y) result' flag?' ↔
            result' = result ∧ flag?' = flag?) ∧
          (x ≠ Registers.flag ∨ flag? = none → v.get x = result) ∧
          (∀ bit, flag? = some bit → (v.get Registers.flag).toNat = bit.toNat) ∧
          ∀ r, r ≠ x → (r ≠ Registers.flag ∨ flag? = none) → v.get r = m.registers.get r) ∧
    ∀ value, m.fetch = (Instruction.increase x value).encode →
      m.cycle.failure = none ∧ m.cycle.machine = { m.advance with registers := v } ∧
        (v.get x).toNat = (a.toNat + value.toNat) % 256 ∧
        ∀ r, r ≠ x → v.get r = m.registers.get r := by
  intro a v
  constructor
  · intro o y fetched
    have cycled := cycle_of_encoded (i := .combine o x y) fetched rfl
    have registers : v = m.registers.combine o x y := congrArg (fun c => c.machine.registers) cycled
    refine ⟨congrArg Cycle.failure cycled, ?_, _, _, o.relates_iff a (m.registers.get y), ?_, ?_, ?_⟩
    · rw [registers]
      exact congrArg Cycle.machine cycled
    · rw [registers]
      exact m.registers.get_combine_self o x y
    · intro bit sets
      rw [registers]
      exact m.registers.get_combine_flag o x y sets
    · intro r other unflagged
      rw [registers]
      apply m.registers.get_combine_of_ne o y other
      intro sets
      refine unflagged.resolve_right fun none => ?_
      rw [← o.isSome_apply, none] at sets
      cases sets
  · intro value fetched
    have cycled := cycle_of_encoded (i := .increase x value) fetched rfl
    have registers : v = m.registers.set x (a + value) := congrArg (fun c => c.machine.registers) cycled
    refine ⟨congrArg Cycle.failure cycled, ?_, ?_, ?_⟩
    · rw [registers]
      exact congrArg Cycle.machine cycled
    · rw [registers, Registers.get_set, if_pos rfl, UInt8.toNat_add]
    · intro r other
      rw [registers]
      exact m.registers.get_set_of_ne _ other

/-- The flag register added to itself: of the sum of 400 only the carry is left. -/
theorem calculated_in_the_flag :
    let program : Program := ⟨[0x6F, 0xC8, 0x8F, 0xF4], by decide, by decide⟩
    let m := ((fresh .default .silent).load program).cycle.machine
    m.registers.get Registers.flag = 200 ∧ m.cycle.failure = none ∧
      m.cycle.machine.registers.get Registers.flag = 1 := by
  intro program m
  have fetched : m.fetch = (Instruction.combine .add Registers.flag Registers.flag).encode := by
    decide +kernel
  have operand : m.registers.get Registers.flag = 200 := by decide +kernel
  obtain ⟨works, -, result, flag?, fits, -, flagged, -⟩ :=
    (calculated_in_place m Registers.flag).1 .add Registers.flag fetched
  have carried : some true = flag? := ((fits 144 (some true)).1 (by rw [operand]; rfl)).2
  refine ⟨operand, works, UInt8.toNat_inj.1 ?_⟩
  exact flagged true carried.symm

end Machine

end Chip8
