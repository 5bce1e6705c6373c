import Chip8.Binary64.Arithmetic
import Chip8.Proofs.Binary64.Rounding

/-!
# The error of arithmetic

Main statements: `rounded_ofRat`, and from it one statement for each operation: on finite numbers whose
exact result is not too large the result is finite and near the exact one.
-/

namespace Chip8.Binary64

/-- `x` is finite, with value `v`. -/
def Reads (x : Binary64) (v : Rat) : Prop :=
  ∃ negative, x.reading = .finite negative v

/-- Far enough below the largest finite number. -/
def Moderate (q : Rat) : Prop :=
  |q| < 2 ^ (1023 : Int)

/-- Half of the least positive number. -/
def halfLeast : Rat :=
  2 ^ (-1075 : Int)

/-- `x` is finite and near `q`, and not below zero unless `q` is. -/
def Rounded (x : Binary64) (q : Rat) : Prop :=
  ∃ v, x.Reads v ∧ |v - q| ≤ |q| / 2 ^ 53 + halfLeast ∧ (0 ≤ q → 0 ≤ v)

theorem moderate_of_le {q : Rat} (small : |q| ≤ 2 ^ 64) : Moderate q := by
  have room : (2 : Rat) ^ (64 : Int) < 2 ^ (1023 : Int) :=
    zpow_lt_zpow_right₀ one_lt_two (by decide)
  exact small.trans_lt (by exact_mod_cast room)

theorem halfLeast_pos : 0 < halfLeast :=
  zpow_pos two_pos _

theorem two_mul_halfLeast : 2 * halfLeast = 2 ^ (-1074 : Int) := by
  rw [halfLeast, mul_comm, ← zpow_add_one₀ two_ne_zero]
  congr 1

/-! ## Rounding -/

theorem reads_ofMagnitude {m : Nat} (finite : m < infinityBits) (negative : Bool) :
    (ofMagnitude negative m).Reads (if negative then -magnitudeValue m else magnitudeValue m) := by
  have small : m < signBit := finite.trans (by decide)
  refine ⟨negative, ?_⟩
  simp only [reading, magnitude_ofMagnitude small, isNegative_ofMagnitude small]
  rw [if_neg finite.not_gt, if_neg finite.ne]

theorem reads_zero (negative : Bool) : (zero negative).Reads 0 := by
  have reads := reads_ofMagnitude (m := 0) (by decide) negative
  rw [magnitudeValue_zero, neg_zero, ite_self] at reads
  exact reads

theorem error_roundMagnitude {q : Rat} (positive : 0 < q) (small : q < 2 ^ (1023 : Int)) :
    |magnitudeValue (roundMagnitude q) - q| ≤ q / 2 ^ 53 + halfLeast := by
  have error := (roundMagnitude_spec positive small).2
  have unit := two_zpow_lastPlace_le positive
  rw [← two_mul_halfLeast] at unit
  linarith

theorem rounded_ofRat (negativeZero : Bool) {q : Rat} (moderate : Moderate q) :
    (ofRat negativeZero q).Rounded q := by
  unfold ofRat
  rcases lt_trichotomy q 0 with negative | rfl | positive
  · have small : -q < 2 ^ (1023 : Int) := by rwa [← abs_of_neg negative]
    have reads := reads_ofMagnitude (roundMagnitude_spec (neg_pos.2 negative) small).1 true
    rw [if_pos rfl] at reads
    rw [if_neg negative.ne, if_pos negative]
    refine ⟨_, reads, ?_, fun nonneg => absurd negative (not_lt.2 nonneg)⟩
    have error := error_roundMagnitude (neg_pos.2 negative) small
    rw [abs_of_neg negative, ← neg_add', abs_neg, ← sub_neg_eq_add]
    exact error
  · rw [if_pos rfl]
    refine ⟨0, reads_zero negativeZero, ?_, fun nonneg => nonneg⟩
    simpa using halfLeast_pos.le
  · have small : q < 2 ^ (1023 : Int) := by rwa [← abs_of_pos positive]
    have reads := reads_ofMagnitude (roundMagnitude_spec positive small).1 false
    rw [if_neg Bool.false_ne_true] at reads
    rw [if_neg positive.ne', if_neg positive.not_gt]
    refine ⟨_, reads, ?_, fun _ => magnitudeValue_nonneg _⟩
    rw [abs_of_pos positive]
    exact error_roundMagnitude positive small

/-! ## Operations -/

theorem reads_neg {x : Binary64} {a : Rat} (left : x.Reads a) : (-x).Reads (-a) := by
  obtain ⟨negative, left⟩ := left
  unfold reading at left
  split at left
  · cases left
  · split at left
    · cases left
    · rename_i notNan notInfinite
      have finite : x.magnitude < infinityBits := lt_of_le_of_ne (not_lt.1 notNan) notInfinite
      cases left
      have reads := reads_ofMagnitude finite (!x.isNegative)
      show (ofMagnitude (!x.isNegative) x.magnitude).Reads _
      generalize x.isNegative = negative at reads ⊢
      cases negative with
      | false => exact reads
      | true =>
          rw [if_pos rfl, neg_neg]
          exact reads

section

variable {x y : Binary64} {a b : Rat}

theorem rounded_add (left : x.Reads a) (right : y.Reads b) (moderate : Moderate (a + b)) :
    (x + y).Rounded (a + b) := by
  obtain ⟨s, left⟩ := left
  obtain ⟨t, right⟩ := right
  show (add x y).Rounded _
  simp only [add, left, right]
  exact rounded_ofRat _ moderate

theorem rounded_sub (left : x.Reads a) (right : y.Reads b) (moderate : Moderate (a - b)) :
    (x - y).Rounded (a - b) := by
  rw [sub_eq_add_neg] at moderate ⊢
  exact rounded_add left (reads_neg right) moderate

theorem rounded_mul (left : x.Reads a) (right : y.Reads b) (moderate : Moderate (a * b)) :
    (x * y).Rounded (a * b) := by
  obtain ⟨s, left⟩ := left
  obtain ⟨t, right⟩ := right
  show (mul x y).Rounded _
  simp only [mul, left, right]
  exact rounded_ofRat _ moderate

theorem rounded_div (left : x.Reads a) (right : y.Reads b) (nonzero : b ≠ 0)
    (moderate : Moderate (a / b)) : (x / y).Rounded (a / b) := by
  obtain ⟨s, left⟩ := left
  obtain ⟨t, right⟩ := right
  show (div x y).Rounded _
  simp only [div, left, right, nonzero, if_false]
  exact rounded_ofRat _ moderate

theorem rounded_remainder (left : x.Reads a) (right : y.Reads b) (nonzero : b ≠ 0)
    (moderate : Moderate (a - b * truncate (a / b))) :
    (x.remainder y).Rounded (a - b * truncate (a / b)) := by
  obtain ⟨s, left⟩ := left
  obtain ⟨t, right⟩ := right
  simp only [remainder, left, right, nonzero, if_false]
  exact rounded_ofRat _ moderate

theorem rounded_floor (left : x.Reads a) (moderate : Moderate a.floor) : x.floor.Rounded a.floor := by
  obtain ⟨s, left⟩ := left
  simp only [floor, left]
  exact rounded_ofRat _ moderate

theorem toInt_of_reads (left : x.Reads a) : x.toInt = .ok (truncate a) := by
  obtain ⟨s, left⟩ := left
  simp only [toInt, left]

theorem eq_zero_of_isZero (left : x.Reads a) (isZero : x.isZero = true) : a = 0 := by
  obtain ⟨s, left⟩ := left
  have none : x.magnitude = 0 := by simpa [Binary64.isZero] using isZero
  simp only [reading, none, magnitudeValue_zero] at left
  simp [infinityBits] at left
  exact left.2.symm

end

theorem rounded_one : one.Rounded 1 :=
  rounded_ofRat false (moderate_of_le (by norm_num))

theorem ofInt_of_moderate {i : Int} (moderate : Moderate i) : ∃ x, ofInt i = .ok x ∧ x.Rounded i := by
  have rounded := rounded_ofRat false moderate
  refine ⟨_, ?_, rounded⟩
  obtain ⟨v, ⟨negative, reads⟩, -, -⟩ := rounded
  refine if_neg ?_
  intro infinite
  simp [reading, infinite] at reads

end Chip8.Binary64
