import Chip8.Proofs.Binary64.Quotient

/-!
# The range of binary64 numbers

Main statements: `roundMagnitude_lt_iff`, which rationals are rounded to a finite number; `ofInt_of_toInt`,
an integer that has been read off a number can be turned back into one; `reciprocal_error_iff`, which
integers have no reciprocal.
-/

namespace Chip8.Binary64

/-- Half a unit of the last place above the largest finite number: from here on a rational is rounded to
an infinity. -/
def overflow : Rat :=
  (2 ^ 53 - 1 / 2) * 2 ^ (971 : Int)

theorem overflow_pos : 0 < overflow := by
  have digits : (0 : Rat) < 2 ^ 53 - 1 / 2 := by norm_num
  unfold overflow
  positivity

/-! ## Overflow -/

theorem roundHalfEven_add_half (n : Int) : roundHalfEven (n + 1 / 2) = n + n % 2 := by
  have floor : ⌊(n : Rat) + 1 / 2⌋ = n := Int.floor_eq_iff.2 (by constructor <;> linarith)
  have floor : ((n : Rat) + 1 / 2).floor = n := floor
  simp only [roundHalfEven, floor, add_sub_cancel_left, lt_irrefl, if_false]

/-- A tie goes up to an even integer. -/
theorem roundHalfEven_lt_iff {q : Rat} {n : Int} (even : n % 2 = 0) :
    roundHalfEven q < n ↔ q < n - 1 / 2 := by
  have near := abs_le.1 (abs_roundHalfEven_sub q)
  constructor
  · intro less
    have least : (roundHalfEven q : Rat) ≤ n - 1 := by exact_mod_cast Int.le_sub_one_of_lt less
    by_contra high
    -- Half a unit below `n` is the only place left, and from there rounding goes up.
    have tie : q = (n - 1 : Int) + 1 / 2 := by
      push_cast
      linarith
    rw [tie, roundHalfEven_add_half] at less
    omega
  · intro low
    have less : (roundHalfEven q : Rat) < n := by linarith
    exact_mod_cast less

theorem roundMagnitude_lt_iff {q : Rat} (positive : 0 < q) :
    roundMagnitude q < infinityBits ↔ q < overflow := by
  obtain ⟨significand, rounded, fits, leads⟩ := roundHalfEven_significand positive
  obtain ⟨most, least⟩ := significand_spec positive
  have lowest := lastPlace_ge q
  have unit : (0 : Rat) < 2 ^ lastPlace q := by positivity
  have bits : roundMagnitude q < infinityBits ↔
      (lastPlace q + 1074).toNat * leadingBit + significand < 2047 * leadingBit := by
    simp only [roundMagnitude, rounded, Int.toNat_natCast, infinityBits, leadingBit]
    omega
  rw [bits]
  simp only [leadingBit] at fits leads most least ⊢
  rcases lt_trichotomy (lastPlace q) 971 with lower | last | higher
  · refine iff_of_true (by omega) ?_
    have power : (2 : Rat) ^ lastPlace q ≤ 2 ^ (970 : Int) := zpow_le_zpow_right₀ one_le_two (by omega)
    have double : (2 : Rat) ^ (971 : Int) = 2 ^ (970 : Int) * 2 := zpow_add_one₀ two_ne_zero 970
    rw [div_lt_iff₀ unit] at most
    rw [overflow, double]
    generalize (2 : Rat) ^ lastPlace q = place, (2 : Rat) ^ (970 : Int) = bound at unit power most ⊢
    norm_num at most ⊢
    linarith
  · have digits : significand < 2 ^ 53 ↔ q / 2 ^ lastPlace q < 2 ^ 53 - 1 / 2 := by
      have even := roundHalfEven_lt_iff (q := q / 2 ^ lastPlace q) (n := 2 ^ 53) (by decide)
      rw [rounded] at even
      exact_mod_cast even
    have range : q < overflow ↔ q / 2 ^ lastPlace q < 2 ^ 53 - 1 / 2 := by
      rw [div_lt_iff₀ unit, last, overflow]
    rw [range, ← digits]
    omega
  · refine iff_of_false (by omega) ?_
    have power : (2 : Rat) ^ (972 : Int) ≤ 2 ^ lastPlace q := zpow_le_zpow_right₀ one_le_two (by omega)
    have double : (2 : Rat) ^ (972 : Int) = 2 ^ (971 : Int) * 2 := zpow_add_one₀ two_ne_zero 971
    have normal := least.resolve_left (by omega)
    have positive : (0 : Rat) < 2 ^ (971 : Int) := by positivity
    rw [le_div_iff₀ unit] at normal
    rw [double] at power
    rw [overflow]
    generalize (2 : Rat) ^ lastPlace q = place, (2 : Rat) ^ (971 : Int) = bound at power normal positive ⊢
    norm_num at normal ⊢
    linarith

theorem magnitude_ofRat (negativeZero : Bool) {q : Rat} (nonzero : q ≠ 0) :
    (ofRat negativeZero q).magnitude = roundMagnitude |q| := by
  have small (m : Rat) : roundMagnitude m < signBit := (Nat.min_le_right _ _).trans_lt (by decide)
  unfold ofRat
  rw [if_neg nonzero]
  split
  · rename_i negative
    rw [magnitude_ofMagnitude (small _), abs_of_neg negative]
  · rename_i nonneg
    rw [magnitude_ofMagnitude (small _), abs_of_nonneg (not_lt.1 nonneg)]

theorem magnitude_ofRat_eq_infinityBits_iff (negativeZero : Bool) (q : Rat) :
    (ofRat negativeZero q).magnitude = infinityBits ↔ overflow ≤ |q| := by
  by_cases zero : q = 0
  · subst zero
    refine iff_of_false ?_ (by rw [abs_zero]; exact overflow_pos.not_ge)
    rw [ofRat, if_pos rfl, Binary64.zero, magnitude_ofMagnitude (by decide)]
    decide
  · have most : roundMagnitude |q| ≤ infinityBits := Nat.min_le_right _ _
    rw [magnitude_ofRat negativeZero zero, ← not_lt, ← roundMagnitude_lt_iff (abs_pos.2 zero)]
    omega

theorem ofInt_eq (i : Int) :
    ofInt i = if overflow ≤ |(i : Rat)| then .error .integerTooLarge else .ok (ofRat false i) := by
  simp only [ofInt, magnitude_ofRat_eq_infinityBits_iff]

/-! ## Finite numbers -/

theorem magnitudeValue_lt_overflow {m : Nat} (finite : m < infinityBits) : magnitudeValue m < overflow := by
  have field : m / leadingBit ≤ 2046 := by
    simp only [infinityBits, leadingBit] at finite ⊢
    omega
  have digits : leadingBit + m % leadingBit ≤ 2 ^ 53 - 1 := by
    simp only [leadingBit]
    omega
  have fraction : m % leadingBit ≤ 2 ^ 53 - 1 := (Nat.le_add_left _ _).trans digits
  have unit : (0 : Rat) < 2 ^ (971 : Int) := by positivity
  have place {e : Int} (low : e ≤ 971) : (2 : Rat) ^ e ≤ 2 ^ (971 : Int) :=
    zpow_le_zpow_right₀ one_le_two low
  have bound : magnitudeValue m ≤ ((2 ^ 53 - 1 : Nat) : Rat) * 2 ^ (971 : Int) := by
    unfold magnitudeValue
    simp only
    split
    · exact mul_le_mul (Nat.cast_le.2 fraction) (place (by decide)) (by positivity) (by positivity)
    · exact mul_le_mul (Nat.cast_le.2 digits) (place (by omega)) (by positivity) (by positivity)
  exact bound.trans_lt (mul_lt_mul_of_pos_right (by norm_num) unit)

theorem magnitudeValue_ne_zero {m : Nat} (nonzero : m ≠ 0) : magnitudeValue m ≠ 0 := by
  have parts := Nat.div_add_mod m leadingBit
  unfold magnitudeValue
  simp only
  split
  · rename_i subnormal
    rw [subnormal, mul_zero, zero_add] at parts
    rw [parts]
    positivity
  · have leading : leadingBit + m % leadingBit ≠ 0 := by
      simp [leadingBit]
    positivity

theorem magnitude_of_reads {x : Binary64} {a : Rat} (reads : x.Reads a) :
    x.magnitude < infinityBits ∧ |a| = magnitudeValue x.magnitude := by
  obtain ⟨negative, reads⟩ := reads
  unfold reading at reads
  split at reads
  · cases reads
  · split at reads
    · cases reads
    · rename_i notNan notInfinite
      cases reads
      refine ⟨lt_of_le_of_ne (not_lt.1 notNan) notInfinite, ?_⟩
      split
      · rw [abs_neg, abs_of_nonneg (magnitudeValue_nonneg _)]
      · rw [abs_of_nonneg (magnitudeValue_nonneg _)]

theorem reads_of_finite {x : Binary64} (finite : x.magnitude < infinityBits) : ∃ a, x.Reads a := by
  simp only [Reads, reading, if_neg finite.not_gt, if_neg finite.ne]
  exact ⟨_, _, rfl⟩

theorem abs_lt_overflow {x : Binary64} {a : Rat} (reads : x.Reads a) : |a| < overflow := by
  obtain ⟨finite, value⟩ := magnitude_of_reads reads
  rw [value]
  exact magnitudeValue_lt_overflow finite

theorem ne_zero_of_reads {x : Binary64} {a : Rat} (reads : x.Reads a) (nonzero : x.isZero = false) :
    a ≠ 0 := by
  obtain ⟨-, value⟩ := magnitude_of_reads reads
  rw [← abs_pos, value]
  exact (magnitudeValue_nonneg _).lt_of_ne' (magnitudeValue_ne_zero (of_decide_eq_false nonzero))

theorem abs_truncate_le (q : Rat) : |(truncate q : Rat)| ≤ |q| := by
  unfold truncate
  split
  · rename_i negative
    have below : ((-q).floor : Rat) ≤ -q := Int.floor_le (-q)
    have nonneg : 0 ≤ (-q).floor := Int.floor_nonneg.2 (neg_nonneg.2 negative.le)
    have nonneg : (0 : Rat) ≤ (-q).floor := by exact_mod_cast nonneg
    rw [Int.cast_neg, abs_neg, abs_of_nonneg nonneg, abs_of_neg negative]
    exact below
  · rename_i nonneg
    have below : (q.floor : Rat) ≤ q := Int.floor_le q
    have whole : 0 ≤ q.floor := Int.floor_nonneg.2 (not_lt.1 nonneg)
    have whole : (0 : Rat) ≤ q.floor := by exact_mod_cast whole
    rw [abs_of_nonneg whole, abs_of_nonneg (not_lt.1 nonneg)]
    exact below

theorem toInt_error_iff {x : Binary64} {failure : Failure} :
    x.toInt = .error failure ↔
      x.reading = .nan ∧ failure = .nanToInteger ∨
        (∃ negative, x.reading = .infinite negative) ∧ failure = .infinityToInteger := by
  cases reads : x.reading <;> simp [toInt, reads, eq_comm]

/-- An integer that has been read off a number is in the range of the numbers. -/
theorem ofInt_of_toInt {x : Binary64} {i : Int} (isInt : x.toInt = .ok i) :
    ofInt i = .ok (ofRat false i) := by
  unfold toInt at isInt
  split at isInt <;> cases isInt
  rename_i negative a reads
  have small := (abs_truncate_le a).trans_lt (abs_lt_overflow ⟨negative, reads⟩)
  rw [ofInt_eq, if_neg small.not_ge]

/-! ## Reciprocals -/

theorem roundMagnitude_ne_zero {q : Rat} (large : halfLeast < q) : roundMagnitude q ≠ 0 := by
  have positive := halfLeast_pos.trans large
  obtain ⟨significand, rounded, -, -⟩ := roundHalfEven_significand positive
  have lowest := lastPlace_ge q
  intro zero
  simp only [roundMagnitude, rounded, Int.toNat_natCast, infinityBits, leadingBit] at zero
  have none : significand = 0 := by omega
  have last : lastPlace q = -1074 := by omega
  have near := (abs_le.1 (abs_roundHalfEven_sub (q / 2 ^ lastPlace q))).1
  have unit : 0 < 2 * halfLeast := mul_pos two_pos halfLeast_pos
  rw [rounded, none, last, ← two_mul_halfLeast, Nat.cast_zero, Int.cast_zero, zero_sub, neg_le_neg_iff,
    div_le_iff₀ unit] at near
  linarith

theorem isZero_ofRat {negativeZero : Bool} {q : Rat} (large : halfLeast < |q|) :
    (ofRat negativeZero q).isZero = false := by
  have nonzero : q ≠ 0 := abs_pos.1 (halfLeast_pos.trans large)
  rw [isZero, magnitude_ofRat _ nonzero]
  exact decide_eq_false (roundMagnitude_ne_zero large)

theorem isZero_ofRat_intCast_iff (i : Int) : (ofRat false i).isZero = true ↔ i = 0 := by
  constructor
  · intro isZero
    by_contra nonzero
    have whole : (1 : Rat) ≤ |(i : Rat)| := by exact_mod_cast Int.one_le_abs nonzero
    have large : halfLeast < |(i : Rat)| := halfLeast_le.trans_lt (by linarith)
    rw [isZero_ofRat large] at isZero
    cases isZero
  · rintro rfl
    decide +kernel

theorem reciprocal_error_iff {i : Int} {failure : Failure} :
    reciprocal i = .error failure ↔
      i = 0 ∧ failure = .divisionByZero ∨ overflow ≤ |(i : Rat)| ∧ failure = .integerTooLarge := by
  simp only [reciprocal, ofInt_eq]
  split
  · rename_i large
    have nonzero : i ≠ 0 := by
      rintro rfl
      rw [Int.cast_zero, abs_zero] at large
      exact overflow_pos.not_ge large
    simp [bind, Except.bind, nonzero, large, eq_comm]
  · rename_i small
    simp only [bind, Except.bind, isZero_ofRat_intCast_iff, small, false_and, or_false]
    split
    · rename_i zero
      simp [throw, throwThe, MonadExceptOf.throw, zero, eq_comm]
    · rename_i nonzero
      simp [pure, Except.pure, nonzero]

theorem halfLeast_mul_overflow_lt : halfLeast * overflow < 1 / 2 := by
  have powers : (2 : Rat) ^ (-1075 : Int) * 2 ^ (971 : Int) = 2 ^ (-104 : Int) := by
    rw [← zpow_add₀ two_ne_zero]
    rfl
  rw [halfLeast, overflow, mul_comm, mul_assoc, mul_comm (_ ^ (971 : Int)), powers]
  norm_num

theorem reads_one : one.Reads 1 :=
  ⟨false, by decide +kernel⟩

theorem isZero_one_div {x : Binary64} {a : Rat} (reads : x.Reads a) (nonzero : a ≠ 0) :
    (one / x).isZero = false := by
  have large : halfLeast < |1 / a| := by
    rw [abs_div, abs_one, lt_div_iff₀ (abs_pos.2 nonzero)]
    calc halfLeast * |a| ≤ halfLeast * overflow := by
          gcongr
          · exact halfLeast_pos.le
          · exact (abs_lt_overflow reads).le
      _ < 1 := halfLeast_mul_overflow_lt.trans (by norm_num)
  obtain ⟨s, unit⟩ := reads_one
  obtain ⟨t, reads⟩ := reads
  show (div one x).isZero = false
  simp only [div, unit, reads, nonzero, if_false]
  exact isZero_ofRat large

/-- The reciprocal of an integer is never rounded to zero. -/
theorem isZero_of_reciprocal {i : Int} {x : Binary64} (isReciprocal : reciprocal i = .ok x) :
    x.isZero = false := by
  simp only [reciprocal, ofInt_eq] at isReciprocal
  split at isReciprocal
  · cases isReciprocal
  · rename_i small
    simp only [bind, Except.bind, pure, Except.pure] at isReciprocal
    split at isReciprocal
    · cases isReciprocal
    · rename_i nonzero
      cases isReciprocal
      have whole : (i : Rat) ≠ 0 := by
        rw [isZero_ofRat_intCast_iff] at nonzero
        exact_mod_cast nonzero
      have finite := (roundMagnitude_lt_iff (abs_pos.2 whole)).2 (not_le.1 small)
      rw [← magnitude_ofRat false whole] at finite
      obtain ⟨b, reads⟩ := reads_of_finite finite
      exact isZero_one_div reads (ne_zero_of_reads reads (Bool.eq_false_iff.2 nonzero))

end Chip8.Binary64
