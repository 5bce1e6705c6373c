import Chip8.Proofs.Binary64.Arithmetic

/-!
# The error of periods and whole periods

Main statements: `reciprocal_near`, the period of a moderate rate is near the exact one, and
`flooredQuotient_near`, a number of whole periods makes up for the time that it divides, up to one
hundredth of that time and one second. The bounds are generous, for nothing finer is asked of them.
-/

namespace Chip8.Binary64

theorem halfLeast_le : halfLeast ≤ 1 / 1000000 := by
  have least : halfLeast ≤ 2 ^ (-20 : Int) := zpow_le_zpow_right₀ one_le_two (by decide)
  exact least.trans (by norm_num)

theorem Rounded.near {x : Binary64} {q : Rat} (rounded : x.Rounded q) :
    ∃ v, x.Reads v ∧ |v - q| ≤ |q| / 1000 + 1 / 1000000 ∧ (0 ≤ q → 0 ≤ v) := by
  obtain ⟨v, reads, error, sign⟩ := rounded
  refine ⟨v, reads, error.trans (add_le_add ?_ halfLeast_le), sign⟩
  gcongr
  norm_num

/-! ## Periods -/

/-- The quotient of a rounded one by a rounded rate, once more rounded. -/
theorem quotient_near {i b o v : Rat} (least : 1 ≤ i) (most : i ≤ 1000)
    (near : |b - i| ≤ i / 1000 + 1 / 1000000) (single : |o - 1| ≤ 1 / 1000 + 1 / 1000000)
    (bound : 0 ≤ o / b ∧ o / b ≤ 2) (error : |v - o / b| ≤ o / b / 1000 + 1 / 1000000) :
    |v * i - 1| ≤ 1 / 100 := by
  have positive : 0 < b := by
    rw [abs_le] at near
    linarith
  have rate : |o / b * i - o| ≤ o / b * i / 1000 + 1 / 500000 := by
    have difference : o / b * i - o = o / b * (i - b) := by
      rw [mul_sub, div_mul_cancel₀ o positive.ne']
    rw [difference, abs_mul, abs_of_nonneg bound.1, abs_sub_comm]
    calc o / b * |b - i| ≤ o / b * (i / 1000 + 1 / 1000000) := by
          gcongr
          exact bound.1
      _ = o / b * i / 1000 + o / b / 1000000 := by ring
      _ ≤ o / b * i / 1000 + 1 / 500000 := by linarith
  have rounding : |v * i - o / b * i| ≤ o / b * i / 1000 + 1 / 1000 := by
    rw [← sub_mul, abs_mul, abs_of_nonneg (by linarith : 0 ≤ i)]
    calc |v - o / b| * i ≤ (o / b / 1000 + 1 / 1000000) * i := by gcongr
      _ = o / b * i / 1000 + i / 1000000 := by ring
      _ ≤ o / b * i / 1000 + 1 / 1000 := by linarith
  rw [abs_le] at rate rounding single ⊢
  constructor <;> linarith

theorem reciprocal_near {i : Int} (least : 1 ≤ i) (most : i ≤ 1000) :
    ∃ x v, reciprocal i = .ok x ∧ x.Reads v ∧ |v * i - 1| ≤ 1 / 100 := by
  have least' : (1 : Rat) ≤ i := by exact_mod_cast least
  have most' : (i : Rat) ≤ 1000 := by exact_mod_cast most
  have size : |(i : Rat)| = i := abs_of_nonneg (by linarith)
  obtain ⟨d, isInt, rounded⟩ := ofInt_of_moderate (i := i) (moderate_of_le (by rw [size]; linarith))
  obtain ⟨b, reads, near, -⟩ := rounded.near
  obtain ⟨o, unit, single, -⟩ := rounded_one.near
  rw [size] at near
  rw [abs_one] at single
  have wide := abs_le.1 near
  have close := abs_le.1 single
  have positive : 0 < b := by linarith
  have quotient : 0 ≤ o / b := div_nonneg (by linarith) positive.le
  have bound : o / b ≤ 2 := by
    rw [div_le_iff₀ positive]
    linarith
  have moderate : Moderate (o / b) := moderate_of_le (by rw [abs_of_nonneg quotient]; linarith)
  obtain ⟨v, value, error, -⟩ := (rounded_div unit reads positive.ne' moderate).near
  rw [abs_of_nonneg quotient] at error
  have nonzero : d.isZero = false := by
    refine Bool.eq_false_iff.2 fun isZero => ?_
    exact positive.ne' (eq_zero_of_isZero reads isZero)
  refine ⟨one / d, v, ?_, value, quotient_near least' most' near single ⟨quotient, bound⟩ error⟩
  simp [reciprocal, isInt, bind, Except.bind, nonzero, pure, Except.pure]

/-! ## Whole periods -/

theorem abs_sub_truncate (q : Rat) : |q - truncate q| ≤ 1 := by
  have below := Int.floor_le q
  have above := Int.lt_floor_add_one q
  have below' := Int.floor_le (-q)
  have above' := Int.lt_floor_add_one (-q)
  unfold truncate
  rw [abs_le]
  split
  · rw [Int.cast_neg]
    show -1 ≤ q - -((⌊-q⌋ : Int) : Rat) ∧ q - -((⌊-q⌋ : Int) : Rat) ≤ 1
    constructor <;> linarith
  · show -1 ≤ q - ((⌊q⌋ : Int) : Rat) ∧ q - ((⌊q⌋ : Int) : Rat) ≤ 1
    constructor <;> linarith

section

variable {x y : Binary64} {a p : Rat} (left : x.Reads a) (right : y.Reads p) (least : 1 / 100 ≤ p)
  (most : p ≤ 1 / 10)

include left right least most

theorem remainder_near : ∃ r, (x.remainder y).Reads r ∧ |r| ≤ 11 / 100 := by
  have positive : 0 < p := by linarith
  have rest : |a - p * truncate (a / p)| ≤ 1 / 10 := by
    have difference : a - p * truncate (a / p) = p * (a / p - truncate (a / p)) := by
      rw [mul_sub, mul_div_cancel₀ a positive.ne']
    rw [difference, abs_mul, abs_of_pos positive]
    calc p * |a / p - truncate (a / p)| ≤ 1 / 10 * 1 := by
          gcongr
          exact abs_sub_truncate _
      _ = 1 / 10 := mul_one _
  obtain ⟨r, reads, near, -⟩ :=
    (rounded_remainder left right positive.ne' (moderate_of_le (by linarith))).near
  refine ⟨r, reads, ?_⟩
  have triangle := abs_sub_abs_le_abs_sub r (a - p * truncate (a / p))
  linarith

theorem exact_near (small : |a| ≤ 2 ^ 54) :
    ∃ e, ((x - x.remainder y) / y).Reads e ∧ |p * e - a| ≤ |a| / 400 + 12 / 100 := by
  have positive : 0 < p := by linarith
  obtain ⟨r, rest, bound⟩ := remainder_near left right least most
  have apart : |a - r| ≤ |a| + 11 / 100 := (abs_sub a r).trans (by linarith)
  obtain ⟨d, difference, near, -⟩ :=
    (rounded_sub left rest (moderate_of_le (by linarith))).near
  have size : |d| ≤ 1001 / 1000 * |a| + 12 / 100 := by
    have triangle := abs_sub_abs_le_abs_sub d (a - r)
    linarith
  have many : |d / p| ≤ 2 ^ 64 := by
    rw [abs_div, abs_of_pos positive, div_le_iff₀ positive]
    linarith
  obtain ⟨e, quotient, error, -⟩ :=
    (rounded_div difference right positive.ne' (moderate_of_le many)).near
  refine ⟨e, quotient, ?_⟩
  have scaled : |p * e - d| ≤ |d| / 1000 + 1 / 1000000 := by
    have whole : p * e - d = p * (e - d / p) := by rw [mul_sub, mul_div_cancel₀ d positive.ne']
    have part : p * |d / p| = |d| := by
      rw [abs_div, abs_of_pos positive, mul_div_cancel₀ _ positive.ne']
    rw [whole, abs_mul, abs_of_pos positive]
    calc p * |e - d / p| ≤ p * (|d / p| / 1000 + 1 / 1000000) := by gcongr
      _ = |d| / 1000 + p / 1000000 := by rw [← part]; ring
      _ ≤ |d| / 1000 + 1 / 1000000 := by linarith
  have first := abs_sub_le (p * e) d a
  have second := abs_sub_le d (a - r) a
  have third : |a - r - a| = |r| := by rw [sub_sub_cancel_left, abs_neg]
  have nonneg := abs_nonneg a
  linarith

end

section

variable {p v u : Rat} (least : 1 / 100 ≤ p) (close : |u - v| ≤ 11 / 10)

include least close

theorem moderate_step (range : |p * v| ≤ 2 ^ 56) : Moderate u := by
  have size : |v| ≤ 100 * |p * v| := by
    rw [abs_mul, abs_of_pos (by linarith : 0 < p)]
    calc |v| = 100 * (1 / 100 * |v|) := by ring
      _ ≤ 100 * (p * |v|) := by gcongr
  have triangle := abs_sub_abs_le_abs_sub u v
  exact moderate_of_le (by linarith)

/-- Rounding a number that is about one away moves the time it stands for by little more than a period. -/
theorem step_near (most : p ≤ 1 / 10) {w : Binary64} (rounded : w.Rounded u) :
    ∃ z, w.Reads z ∧ |p * z - p * v| ≤ |p * v| / 1000 + 12 / 100 := by
  obtain ⟨z, reads, near, -⟩ := rounded.near
  refine ⟨z, reads, ?_⟩
  have size := abs_sub_abs_le_abs_sub u v
  have apart : |z - v| ≤ |v| / 1000 + 12 / 10 := by
    have triangle := abs_sub_le z u v
    linarith
  rw [← mul_sub, abs_mul, abs_mul, abs_of_pos (by linarith : 0 < p)]
  calc p * |z - v| ≤ p * (|v| / 1000 + 12 / 10) := by gcongr
    _ = p * |v| / 1000 + p * (12 / 10) := by ring
    _ ≤ p * |v| / 1000 + 12 / 100 := by linarith

end

theorem abs_floor_sub (q : Rat) : |(q.floor : Rat) - q| ≤ 11 / 10 := by
  have below : (q.floor : Rat) ≤ q := Int.floor_le q
  have above : q < q.floor + 1 := Int.lt_floor_add_one q
  rw [abs_le]
  constructor <;> linarith

section

variable {p a : Rat} (least : 1 / 100 ≤ p) (most : p ≤ 1 / 10) (small : |a| ≤ 2 ^ 54)

include least most small

theorem whole_near {w : Binary64} {q : Rat} (reads : w.Reads q)
    (bound : |p * q - a| ≤ |a| / 250 + 1 / 4) (negative : Bool) :
    ∃ v, (if w.isZero then zero negative
      else if half.lt (w - w.floor) then w.floor + one else w.floor).Reads v ∧
        |p * v - a| ≤ |a| / 100 + 1 := by
  have nonneg := abs_nonneg a
  split
  · rename_i isZero
    refine ⟨0, reads_zero _, ?_⟩
    rw [eq_zero_of_isZero reads isZero] at bound
    linarith
  · have size := abs_sub_abs_le_abs_sub (p * q) a
    have close := abs_floor_sub q
    obtain ⟨f, below, moved⟩ := step_near least close most
      (rounded_floor reads (moderate_step least close (by linarith)))
    have triangle := abs_sub_le (p * f) (p * q) a
    split
    · have size := abs_sub_abs_le_abs_sub (p * f) a
      obtain ⟨o, unit, single, -⟩ := rounded_one.near
      rw [abs_one, abs_le] at single
      have close : |f + o - f| ≤ 11 / 10 := by
        rw [abs_le]
        constructor <;> linarith
      obtain ⟨v, above, moved⟩ := step_near least close most
        (rounded_add below unit (moderate_step least close (by linarith)))
      refine ⟨v, above, ?_⟩
      have triangle := abs_sub_le (p * v) (p * f) a
      linarith
    · exact ⟨f, below, by linarith⟩

/-- The number of whole periods takes up the time that it divides, up to a hundredth and a second. -/
theorem flooredQuotient_near {x y : Binary64} (left : x.Reads a) (right : y.Reads p) :
    ∃ v, (x.flooredQuotient y).Reads v ∧ |p * v - a| ≤ |a| / 100 + 1 := by
  obtain ⟨e, exact, near⟩ := exact_near left right least most small
  have nonneg := abs_nonneg a
  have size := abs_sub_abs_le_abs_sub (p * e) a
  unfold flooredQuotient
  simp only
  refine (?_ : ∃ q, Reads _ q ∧ |p * q - a| ≤ |a| / 250 + 1 / 4).elim fun q quotient =>
    whole_near least most small quotient.1 quotient.2 _
  split
  · obtain ⟨o, unit, single, -⟩ := rounded_one.near
    rw [abs_one, abs_le] at single
    have close : |e - o - e| ≤ 11 / 10 := by
      rw [abs_le]
      constructor <;> linarith
    obtain ⟨q, reads, moved⟩ := step_near least close most
      (rounded_sub exact unit (moderate_step least close (by linarith)))
    refine ⟨q, reads, ?_⟩
    have triangle := abs_sub_le (p * q) (p * e) a
    linarith
  · exact ⟨e, exact, near.trans (by linarith)⟩

end

end Chip8.Binary64
