import Chip8.Proofs.Binary64.Quotient
import Chip8.Proofs.Countdown.Tick

/-!
# The range of ticks

Main statement: `tick_within`, a tick succeeds at every reading from zero to 2^52 and never moves the
reading of the last decrement out of the range from zero to 2^53, in whatever order the readings come.
-/

namespace Chip8

/-- `x` is a finite time from zero to `bound`. -/
def Binary64.Within (x : Binary64) (bound : Rat) : Prop :=
  ∃ v, x.Reads v ∧ 0 ≤ v ∧ v ≤ bound

namespace Countdown

open Binary64

def maxReading : Rat := 2 ^ 52

/-- The last reading, if there is one, is in a range that ticks do not leave. -/
def InRange (c : Countdown Binary64) : Prop :=
  ∀ last, c.last = some last → last.Within (2 * maxReading)

theorem period_of_rate {rate : Int} (least : 20 ≤ rate) (most : rate ≤ 80) :
    ∃ period p, reciprocal rate = .ok period ∧ period.Reads p ∧ 1 / 100 ≤ p ∧ p ≤ 1 / 10 := by
  obtain ⟨period, p, isPeriod, reads, near⟩ := reciprocal_near (by omega : 1 ≤ rate) (by omega)
  have least' : (20 : Rat) ≤ rate := by exact_mod_cast least
  have most' : (rate : Rat) ≤ 80 := by exact_mod_cast most
  rw [abs_le] at near
  refine ⟨period, p, isPeriod, reads, ?_, ?_⟩
  · by_contra short
    nlinarith
  · by_contra long
    nlinarith

theorem le_of_truncate_pos {q : Rat} (positive : 0 < truncate q) : (truncate q : Rat) ≤ q := by
  unfold truncate at positive ⊢
  split at positive
  · rename_i negative
    have nonneg : 0 ≤ (-q).floor := Int.floor_nonneg.2 (neg_nonneg.2 negative.le)
    omega
  · rename_i nonneg
    rw [if_neg nonneg]
    exact Int.floor_le q

section

variable {now last period : Binary64} {n v a p : Rat}

theorem elapsed_near (shows : now.Reads n) (reading : 0 ≤ n ∧ n ≤ maxReading) (began : last.Reads v)
    (start : 0 ≤ v ∧ v ≤ 2 * maxReading) :
    ∃ a, (now - last).Reads a ∧ |a - (n - v)| ≤ |n - v| / 1000 + 1 / 1000000 ∧ |a| ≤ 2 ^ 54 := by
  have apart : |n - v| ≤ 2 ^ 53 := by
    simp only [maxReading] at reading start
    rw [abs_le]
    constructor <;> linarith
  obtain ⟨a, elapsed, near, -⟩ := (rounded_sub shows began (moderate_of_le (by linarith))).near
  have triangle := abs_sub_abs_le_abs_sub a (n - v)
  exact ⟨a, elapsed, near, by linarith⟩

variable (lasting : period.Reads p) (short : 1 / 100 ≤ p) (long : p ≤ 1 / 10)

include lasting short long

theorem wholePeriods_near {x : Binary64} (elapsed : x.Reads a) (size : |a| ≤ 2 ^ 54) :
    ∃ count : Int, Reckoning.binary64.wholePeriods x period = .ok count ∧
      (0 < count → p * count ≤ a + |a| / 100 + 1) := by
  obtain ⟨q, quotient, passed⟩ := flooredQuotient_near short long size elapsed lasting
  refine ⟨truncate q, toInt_of_reads quotient, ?_⟩
  intro positive
  have scaled : p * truncate q ≤ p * q := by
    gcongr
    exact le_of_truncate_pos positive
  linarith [le_abs_self (p * q - a)]

theorem periods_near {count : Int} (positive : 0 < count) (size : p * count ≤ 2 ^ 56) :
    ∃ x m, ofInt count = .ok x ∧ (x * period).Reads m ∧ 0 ≤ m ∧
      m ≤ 1003 / 1000 * (p * count) + 1 / 100000 := by
  have one : (1 : Rat) ≤ count := by exact_mod_cast positive
  have hundredth : 1 / 100 * (count : Rat) ≤ p * count := by gcongr
  have whole : |(count : Rat)| = count := abs_of_nonneg (by linarith)
  obtain ⟨x, isInt, rounded⟩ :=
    ofInt_of_moderate (i := count) (moderate_of_le (by rw [whole]; linarith))
  obtain ⟨k, number, near, nonneg⟩ := rounded.near
  rw [whole, abs_le] at near
  have nonneg : 0 ≤ k := nonneg (by linarith)
  have exact : k * p ≤ 1001 / 1000 * (p * count) + 1 / 1000000 := by
    calc k * p ≤ (1001 / 1000 * count + 1 / 1000000) * p := by gcongr; linarith
      _ = 1001 / 1000 * (p * count) + p / 1000000 := by ring
      _ ≤ 1001 / 1000 * (p * count) + 1 / 1000000 := by linarith
  have product : |k * p| = k * p := abs_of_nonneg (mul_nonneg nonneg (by linarith))
  obtain ⟨m, time, error, later⟩ :=
    (rounded_mul number lasting (moderate_of_le (by rw [product]; linarith))).near
  rw [product, abs_le] at error
  exact ⟨x, m, isInt, time, later (product ▸ abs_nonneg _), by linarith⟩

omit lasting short long

/-- Periods that are counted at all are counted at most a second too early, so the reading at which they
have passed is close to `n`. -/
theorem reached_le {m : Rat} (start : 0 ≤ v) (reading : 0 ≤ n)
    (elapsed : |a - (n - v)| ≤ |n - v| / 1000 + 1 / 1000000) (nonneg : 0 ≤ m)
    (spent : m ≤ 1003 / 1000 * (a + |a| / 100 + 1) + 1 / 100000) : v + m ≤ 103 / 100 * n + 3 := by
  rw [abs_le] at elapsed
  rcases abs_cases (n - v) with ⟨forward, -⟩ | ⟨backward, -⟩
  · rcases abs_cases a with ⟨later, -⟩ | ⟨earlier, -⟩ <;> linarith
  · rcases abs_cases a with ⟨later, -⟩ | ⟨earlier, -⟩ <;> linarith

theorem add_within {x y : Binary64} {m : Rat} (began : x.Reads v) (start : 0 ≤ v) (time : y.Reads m)
    (nonneg : 0 ≤ m) (reached : v + m ≤ 103 / 100 * n + 3) (reading : n ≤ maxReading) :
    (x + y).Within (2 * maxReading) := by
  simp only [maxReading] at reading ⊢
  have sum : |v + m| = v + m := abs_of_nonneg (by linarith)
  obtain ⟨z, moved, error, later⟩ :=
    (rounded_add began time (moderate_of_le (by rw [sum]; linarith))).near
  rw [sum, abs_le] at error
  exact ⟨z, moved, later (by linarith), by linarith⟩

end

theorem tick_within {c : Countdown Binary64} {now : Binary64} (least : 20 ≤ c.rate) (most : c.rate ≤ 80)
    (reading : now.Within maxReading) (inRange : c.InRange) :
    ∃ count d, c.tick .binary64 now = .ok (count, d) ∧ d.InRange := by
  obtain ⟨n, shows, range⟩ := reading
  have room : maxReading ≤ 2 * maxReading := by norm_num [maxReading]
  unfold tick
  split
  · refine ⟨0, _, rfl, ?_⟩
    rintro last ⟨⟩
    exact ⟨n, shows, range.1, range.2.trans room⟩
  · rename_i last first
    obtain ⟨v, began, start⟩ := inRange last first
    obtain ⟨period, p, isPeriod, lasting, short, long⟩ := period_of_rate least most
    obtain ⟨a, elapsed, near, size⟩ := elapsed_near shows range began start
    obtain ⟨count, isCount, passed⟩ := wholePeriods_near lasting short long elapsed size
    have isPeriod : Reckoning.binary64.period c.rate = .ok period := isPeriod
    have isElapsed : Reckoning.binary64.elapsed now last = now - last := rfl
    simp only [isPeriod, isElapsed, isCount, bind, Except.bind, pure, Except.pure]
    split
    · exact ⟨0, c, rfl, inRange⟩
    · rename_i due
      have positive : 0 < count := not_le.1 due
      have passed := passed positive
      obtain ⟨x, m, isInt, time, nonneg, spent⟩ :=
        periods_near lasting short long positive (by linarith [le_abs_self a])
      have reached := reached_le start.1 range.1 near nonneg (by linarith)
      simp only [Reckoning.binary64, isInt, bind, Except.bind, pure, Except.pure]
      refine ⟨_, _, rfl, ?_⟩
      rintro _ ⟨⟩
      exact add_within began start.1 time nonneg reached range.2

end Countdown

end Chip8
