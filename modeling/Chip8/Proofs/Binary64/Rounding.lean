import Chip8.Binary64.Rounding
import Mathlib.Algebra.Order.Field.Power
import Mathlib.Data.Rat.Floor
import Mathlib.Tactic.FieldSimp
import Mathlib.Tactic.Linarith
import Mathlib.Tactic.Positivity
import Mathlib.Tactic.Ring

/-!
# The error of rounding

Main statement: `roundMagnitude_spec`, the bits that a positive rational is rounded to are those of a
finite number, which is at most half a unit of the last place away.
-/

namespace Chip8.Binary64

/-! ## The exponent -/

theorem two_zpow_log2_le {n : Nat} (positive : 0 < n) : (2 : Rat) ^ (n.log2 : Int) ≤ n := by
  rw [zpow_natCast]
  exact_mod_cast Nat.log2_self_le positive.ne'

theorem lt_two_zpow_log2 (n : Nat) : (n : Rat) < 2 ^ ((n.log2 : Int) + 1) := by
  exact_mod_cast Nat.lt_log2_self (n := n)

theorem estimate_spec {n d : Nat} (numerator : 0 < n) (denominator : 0 < d) :
    2 ^ ((n.log2 : Int) - d.log2 - 1) ≤ (n : Rat) / d ∧
      (n : Rat) / d < 2 ^ ((n.log2 : Int) - d.log2 + 1) := by
  have positive : (0 : Rat) < d := by exact_mod_cast denominator
  constructor
  · rw [le_div_iff₀ positive]
    calc (2 : Rat) ^ ((n.log2 : Int) - d.log2 - 1) * d
        ≤ 2 ^ ((n.log2 : Int) - d.log2 - 1) * 2 ^ ((d.log2 : Int) + 1) := by
          gcongr
          exact (lt_two_zpow_log2 d).le
      _ = 2 ^ (n.log2 : Int) := by
          rw [← zpow_add₀ two_ne_zero]
          congr 1
          ring
      _ ≤ n := two_zpow_log2_le numerator
  · rw [div_lt_iff₀ positive]
    calc (n : Rat) < 2 ^ ((n.log2 : Int) + 1) := lt_two_zpow_log2 n
      _ = 2 ^ ((n.log2 : Int) - d.log2 + 1) * 2 ^ (d.log2 : Int) := by
          rw [← zpow_add₀ two_ne_zero]
          congr 1
          ring
      _ ≤ 2 ^ ((n.log2 : Int) - d.log2 + 1) * d := by
          gcongr
          exact two_zpow_log2_le denominator

theorem floorLog2_spec {q : Rat} (positive : 0 < q) :
    2 ^ floorLog2 q ≤ q ∧ q < 2 ^ (floorLog2 q + 1) := by
  have numerator : 0 < q.num.natAbs := Int.natAbs_pos.2 (Rat.num_pos.2 positive).ne'
  have quotient : (q.num.natAbs : Rat) / q.den = q := by
    rw [Nat.cast_natAbs, abs_of_pos (Rat.num_pos.2 positive), Rat.num_div_den]
  have estimate := estimate_spec numerator q.den_pos
  rw [quotient] at estimate
  unfold floorLog2
  simp only
  split
  · rename_i smaller
    exact ⟨estimate.1, by rwa [sub_add_cancel]⟩
  · rename_i larger
    exact ⟨not_lt.1 larger, estimate.2⟩

/-! ## The bits of a significand -/

theorem magnitudeValue_parts {field fraction : Nat} (small : fraction < leadingBit) :
    magnitudeValue (field * leadingBit + fraction) =
      if field = 0 then (fraction : Rat) * 2 ^ (-1074 : Int)
      else ((leadingBit + fraction : Nat) : Rat) * 2 ^ ((field : Int) - 1075) := by
  have parts : (field * leadingBit + fraction) / leadingBit = field ∧
      (field * leadingBit + fraction) % leadingBit = fraction :=
    (Nat.div_mod_unique (by decide)).2 ⟨by ring, small⟩
  simp only [magnitudeValue, parts.1, parts.2]

/-- Bits are the sum of an exponent field and a significand even when the significand has its leading
digit, or has been rounded up to the next power of two. -/
theorem magnitudeValue_eq {place significand : Nat} (small : significand ≤ 2 * leadingBit)
    (normal : place = 0 ∨ leadingBit ≤ significand) :
    magnitudeValue (place * leadingBit + significand) =
      significand * 2 ^ ((place : Int) - 1074) := by
  rcases lt_or_ge significand leadingBit with subnormal | leading
  · obtain rfl : place = 0 := normal.resolve_right (not_le.2 subnormal)
    rw [magnitudeValue_parts subnormal, if_pos rfl]
    norm_num
  · rcases lt_or_eq_of_le small with single | carried
    · obtain ⟨fraction, rfl⟩ := Nat.exists_eq_add_of_le leading
      have bits : place * leadingBit + (leadingBit + fraction) = (place + 1) * leadingBit + fraction := by
        ring
      rw [bits, magnitudeValue_parts (by omega), if_neg (Nat.succ_ne_zero place)]
      congr 2
      push_cast
      ring
    · have bits : place * leadingBit + significand = (place + 2) * leadingBit + 0 := by
        rw [carried]
        ring
      rw [bits, magnitudeValue_parts (by decide), if_neg (by omega), carried]
      have exponent : ((place + 2 : Nat) : Int) - 1075 = 1 + ((place : Int) - 1074) := by
        push_cast
        ring
      rw [exponent, zpow_add₀ two_ne_zero, zpow_one]
      push_cast
      ring

/-! ## The error of rounding -/

theorem lastPlace_ge (q : Rat) : -1074 ≤ lastPlace q := by
  unfold lastPlace
  omega

theorem lastPlace_cases (q : Rat) : lastPlace q = -1074 ∨ lastPlace q = floorLog2 q - 52 := by
  unfold lastPlace
  omega

theorem significand_spec {q : Rat} (positive : 0 < q) :
    q / 2 ^ lastPlace q < 2 * leadingBit ∧
      (lastPlace q = -1074 ∨ (leadingBit : Rat) ≤ q / 2 ^ lastPlace q) := by
  obtain ⟨least, most⟩ := floorLog2_spec positive
  have place : (0 : Rat) < 2 ^ lastPlace q := by positivity
  constructor
  · rw [div_lt_iff₀ place]
    have power : (2 : Rat) * leadingBit = 2 ^ (53 : Int) := by norm_num [leadingBit]
    rw [power, ← zpow_add₀ two_ne_zero]
    refine most.trans_le (zpow_le_zpow_right₀ one_le_two ?_)
    unfold lastPlace
    omega
  · rcases lastPlace_cases q with subnormal | normal
    · exact Or.inl subnormal
    · refine Or.inr ?_
      rw [le_div_iff₀ place, normal]
      have power : (leadingBit : Rat) = 2 ^ (52 : Int) := by norm_num [leadingBit]
      rw [power, ← zpow_add₀ two_ne_zero]
      simpa using least

theorem abs_roundHalfEven_sub (q : Rat) : |(roundHalfEven q : Rat) - q| ≤ 1 / 2 := by
  have below : (q.floor : Rat) ≤ q := Int.floor_le q
  have above : q < q.floor + 1 := Int.lt_floor_add_one q
  unfold roundHalfEven
  simp only
  rw [abs_le]
  split
  · constructor <;> linarith
  · split
    · push_cast
      constructor <;> linarith
    · have tie : q - q.floor = 1 / 2 := by linarith
      have parity : (0 : Rat) ≤ (q.floor % 2 : Int) ∧ ((q.floor % 2 : Int) : Rat) ≤ 1 := by
        constructor <;> norm_cast <;> omega
      rw [Int.cast_add]
      constructor <;> linarith

/-- What `roundMagnitude` makes of the digits of `q`: a significand that fits, with its leading digit
unless `q` is too small for one. -/
theorem roundHalfEven_significand {q : Rat} (positive : 0 < q) :
    ∃ significand : Nat, roundHalfEven (q / 2 ^ lastPlace q) = significand ∧
      significand ≤ 2 * leadingBit ∧ (lastPlace q = -1074 ∨ leadingBit ≤ significand) := by
  obtain ⟨fits, leads⟩ := significand_spec positive
  have near := abs_le.1 (abs_roundHalfEven_sub (q / 2 ^ lastPlace q))
  have digits : 0 ≤ q / 2 ^ lastPlace q := by positivity
  generalize roundHalfEven (q / 2 ^ lastPlace q) = rounded at near
  have nonneg : -1 < rounded := by
    have : (-1 : Rat) < rounded := by linarith
    exact_mod_cast this
  obtain ⟨significand, rfl⟩ := Int.eq_ofNat_of_zero_le (by omega : 0 ≤ rounded)
  rw [Int.cast_natCast] at near
  refine ⟨significand, rfl, ?_, leads.imp_right fun leads => ?_⟩
  · have : (significand : Rat) < (2 * leadingBit + 1 : Nat) := by
      push_cast
      linarith
    exact Nat.le_of_lt_succ (by exact_mod_cast this)
  · have : (leadingBit : Rat) < (significand + 1 : Nat) := by
      push_cast
      linarith
    exact Nat.le_of_lt_succ (by exact_mod_cast this)

theorem floorLog2_lt {q : Rat} (positive : 0 < q) {e : Int} (small : q < 2 ^ e) : floorLog2 q < e :=
  (zpow_lt_zpow_iff_right₀ one_lt_two).1 ((floorLog2_spec positive).1.trans_lt small)

theorem two_zpow_lastPlace_le {q : Rat} (positive : 0 < q) :
    (2 : Rat) ^ lastPlace q ≤ q / 2 ^ 52 + 2 ^ (-1074 : Int) := by
  have tiny : (0 : Rat) < 2 ^ (-1074 : Int) := by positivity
  rcases lastPlace_cases q with subnormal | normal
  · rw [subnormal]
    have : 0 ≤ q / 2 ^ 52 := by positivity
    linarith
  · have least := (floorLog2_spec positive).1
    have place : (2 : Rat) ^ lastPlace q = 2 ^ floorLog2 q / 2 ^ 52 := by
      rw [normal, zpow_sub₀ two_ne_zero]
      norm_cast
    rw [place]
    have : (2 : Rat) ^ floorLog2 q / 2 ^ 52 ≤ q / 2 ^ 52 := by gcongr
    linarith

/-- Rounding a positive rational that is not too large moves it by at most half its last place. -/
theorem roundMagnitude_spec {q : Rat} (positive : 0 < q) (small : q < 2 ^ (1023 : Int)) :
    roundMagnitude q < infinityBits ∧
      |magnitudeValue (roundMagnitude q) - q| ≤ 2 ^ lastPlace q / 2 := by
  obtain ⟨significand, rounded, fits, leads⟩ := roundHalfEven_significand positive
  have least := lastPlace_ge q
  have exponent := floorLog2_lt positive small
  have place : (lastPlace q + 1074).toNat ≤ 2044 := by
    unfold lastPlace
    omega
  have finite : (lastPlace q + 1074).toNat * leadingBit + significand < infinityBits := by
    simp only [leadingBit, infinityBits] at fits ⊢
    omega
  have bits : roundMagnitude q = (lastPlace q + 1074).toNat * leadingBit + significand := by
    simp only [roundMagnitude, rounded, Int.toNat_natCast]
    exact Nat.min_eq_left finite.le
  refine ⟨bits ▸ finite, ?_⟩
  have weight : (((lastPlace q + 1074).toNat : Nat) : Int) - 1074 = lastPlace q := by omega
  rw [bits, magnitudeValue_eq fits (leads.imp_left fun lowest => by omega), weight]
  have near := abs_roundHalfEven_sub (q / 2 ^ lastPlace q)
  have unit : (0 : Rat) < 2 ^ lastPlace q := by positivity
  have scaled : (significand : Rat) * 2 ^ lastPlace q - q =
      (significand - q / 2 ^ lastPlace q) * 2 ^ lastPlace q := by
    field_simp
  rw [rounded, Int.cast_natCast] at near
  rw [scaled, abs_mul, abs_of_pos unit]
  calc |(significand : Rat) - q / 2 ^ lastPlace q| * 2 ^ lastPlace q
      ≤ 1 / 2 * 2 ^ lastPlace q := by gcongr
    _ = 2 ^ lastPlace q / 2 := by ring

theorem magnitudeValue_nonneg (m : Nat) : 0 ≤ magnitudeValue m := by
  unfold magnitudeValue
  simp only
  split <;> positivity

theorem magnitudeValue_zero : magnitudeValue 0 = 0 := by
  simp [magnitudeValue]

end Chip8.Binary64
