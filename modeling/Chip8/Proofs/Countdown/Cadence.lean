import Mathlib.Algebra.Order.Floor.Ring
import Mathlib.Data.Rat.Floor
import Mathlib.Order.Bounds.Basic
import Mathlib.Tactic.FieldSimp
import Mathlib.Tactic.Linarith
import Chip8.Proofs.Countdown.Tick

/-!
# The cadence of the countdown

Reckoned exactly, a countdown follows the time that has passed since its first reading, whatever readings
it takes in between. Main statements: `tick_exact`, what a tick does to a countdown that has spent a
number of periods since its start; `cadence_of_readings`, what any sequence of readings amounts to.
-/

namespace Chip8.Countdown

/-- Ticks at one reading after another, with the number of periods that each of them applies. -/
def tickAll {Time : Type} (reckoning : Reckoning Time) (c : Countdown Time) :
    List Time → Except Binary64.Failure (List Int × Countdown Time)
  | [] => .ok ([], c)
  | now :: rest => do
      let (count, c) ← c.tick reckoning now
      let (counts, c) ← c.tickAll reckoning rest
      return (count :: counts, c)

/-- The whole periods from reading `start` to reading `now`, a negative number if the clock has gone
back. -/
def periodsUntil (rate : Int) (start now : Rat) : Int :=
  ((now - start) * rate).floor

/-- The most whole periods that any of the readings lies behind `start`, and none if all lie before. -/
def mostPeriods (rate : Int) (start : Rat) (readings : List Rat) : Int :=
  (readings.map (periodsUntil rate start)).foldr max 0

/-- A counter after `count` periods; no period at all leaves even a negative counter alone. -/
def drained (counter count : Int) : Int :=
  if 0 < count then lower counter count else counter

/-- The countdown after it has spent `count` more periods, up to reading `last`. -/
def spend (c : Countdown Rat) (last : Rat) (count : Int) : Countdown Rat :=
  { c with last := some last, delay := drained c.delay count, sound := drained c.sound count }

@[simp] theorem rate_spend (c : Countdown Rat) (last : Rat) (count : Int) :
    (c.spend last count).rate = c.rate := rfl

/-! ## Counters -/

theorem drained_eq_lower {counter count : Int} (nonneg : 0 ≤ counter) (forward : 0 ≤ count) :
    drained counter count = lower counter count := by
  unfold drained lower
  split <;> omega

theorem drained_drained (counter : Int) {first later : Int} (nonneg : 0 ≤ first) (forward : 0 ≤ later) :
    drained (drained counter first) later = drained counter (first + later) := by
  unfold drained lower
  split <;> split <;> split <;> omega

theorem spend_spend (c : Countdown Rat) (before last : Rat) {first later : Int} (nonneg : 0 ≤ first)
    (forward : 0 ≤ later) : (c.spend before first).spend last later = c.spend last (first + later) := by
  simp only [spend, drained_drained _ nonneg forward]

/-! ## Periods -/

theorem periodsUntil_mono {rate : Int} (running : 0 < rate) {start now later : Rat}
    (order : now ≤ later) : periodsUntil rate start now ≤ periodsUntil rate start later := by
  have positive : (0 : Rat) < rate := by exact_mod_cast running
  have elapsed : (now - start) * rate ≤ (later - start) * rate := by gcongr
  exact Int.floor_mono elapsed

theorem periodsUntil_self (rate : Int) (start : Rat) : periodsUntil rate start start = 0 := by
  simp only [periodsUntil, sub_self, zero_mul]
  rfl

theorem mostPeriods_cons (rate : Int) (start now : Rat) (rest : List Rat) :
    mostPeriods rate start (now :: rest) =
      max (periodsUntil rate start now) (mostPeriods rate start rest) := rfl

theorem mostPeriods_le_iff {rate : Int} {start : Rat} {readings : List Rat} {bound : Int} :
    mostPeriods rate start readings ≤ bound ↔
      0 ≤ bound ∧ ∀ now ∈ readings, periodsUntil rate start now ≤ bound := by
  induction readings with
  | nil => simp [mostPeriods]
  | cons now rest ih =>
      rw [mostPeriods_cons, max_le_iff, ih, List.forall_mem_cons]
      tauto

theorem mostPeriods_of_latest {rate : Int} (running : 0 < rate) {start latest : Rat}
    {later : List Rat} (greatest : IsGreatest {now | now ∈ start :: later} latest) :
    mostPeriods rate start (start :: later) = periodsUntil rate start latest := by
  obtain ⟨reached, last⟩ := greatest
  apply le_antisymm
  · refine mostPeriods_le_iff.2 ⟨?_, fun now member => periodsUntil_mono running (last member)⟩
    rw [← periodsUntil_self rate start]
    exact periodsUntil_mono running (last List.mem_cons_self)
  · exact (mostPeriods_le_iff.1 le_rfl).2 latest reached

/-! ## Ticks -/

theorem floor_elapsed {rate : Int} (running : 0 < rate) (start now : Rat) (spent : Int) :
    ((now - (start + spent / rate)) / (1 / rate)).floor = periodsUntil rate start now - spent := by
  have positive : (rate : Rat) ≠ 0 := by exact_mod_cast running.ne'
  have scaled : (now - (start + spent / rate)) / (1 / rate) = (now - start) * rate - spent := by
    field_simp
    ring
  rw [scaled]
  exact Int.floor_sub_intCast ((now - start) * rate) spent

/-- A countdown that has spent a number of periods since `start` goes on as if it had taken no reading
in between. -/
theorem tick_exact {c : Countdown Rat} (running : 0 < c.rate) {start : Rat} {spent : Int}
    (last : c.last = some (start + spent / c.rate)) (now : Rat) :
    ∃ count : Int, 0 ≤ count ∧ spent + count = max spent (periodsUntil c.rate start now) ∧
      c.tick .exact now = .ok (count, c.spend (start + (spent + count : Int) / c.rate) count) := by
  have passed := floor_elapsed running start now spent
  have nonzero : c.rate ≠ 0 := running.ne'
  simp only [tick, last, Reckoning.exact, nonzero, if_false, passed, bind, Except.bind, pure, Except.pure]
  split
  · rename_i early
    refine ⟨0, le_rfl, by omega, ?_⟩
    simp [spend, drained, ← last]
  · rename_i due
    have positive := not_le.1 due
    refine ⟨_, positive.le, by omega, ?_⟩
    have moved : start + spent / c.rate + ((periodsUntil c.rate start now - spent : Int) : Rat) * (1 / c.rate) =
        start + ((spent + (periodsUntil c.rate start now - spent) : Int) : Rat) / c.rate := by
      push_cast
      ring
    simp only [moved, spend, drained, if_pos positive]

theorem spend_zero {c : Countdown Rat} {last : Rat} (reading : c.last = some last) :
    c.spend last 0 = c := by
  simp [spend, drained, ← reading]

theorem tickAll_exact {c : Countdown Rat} (running : 0 < c.rate) {start : Rat} {spent : Int}
    (nonneg : 0 ≤ spent) (last : c.last = some (start + spent / c.rate)) (readings : List Rat) :
    ∃ counts : List Int, 0 ≤ counts.sum ∧
      spent + counts.sum = max spent (mostPeriods c.rate start readings) ∧
      c.tickAll .exact readings =
        .ok (counts, c.spend (start + (spent + counts.sum : Int) / c.rate) counts.sum) := by
  -- The countdown keeps the end of its last whole period, so that no fraction of one is lost on the way.
  induction readings generalizing c spent with
  | nil =>
      refine ⟨[], le_rfl, ?_, by simp [tickAll, spend_zero last]⟩
      simp [mostPeriods, nonneg]
  | cons now rest ih =>
      obtain ⟨count, forward, first, ticked⟩ := tick_exact running last now
      obtain ⟨counts, onward, total, others⟩ :=
        ih (c := c.spend (start + (spent + count : Int) / c.rate) count) running (by omega) rfl
      rw [rate_spend] at total
      rw [rate_spend, spend_spend c _ _ forward onward, add_assoc] at others
      refine ⟨count :: counts, ?_, ?_, ?_⟩
      · rw [List.sum_cons]
        omega
      · rw [List.sum_cons, mostPeriods_cons]
        omega
      · simp only [tickAll, ticked, others, bind, Except.bind, pure, Except.pure, List.sum_cons]

/-- Whatever readings a countdown takes after its restart, at a fixed rate and in whatever order they
come, it applies the whole periods that its latest reading lies behind its first one. Its counters fall by
that number, and what remains of a period is kept for the next tick. -/
theorem cadence_of_readings (c : Countdown Rat) (running : 0 < c.rate) (first : Rat) (later : List Rat) :
    ∃ counts d, c.restart.tickAll .exact (first :: later) = .ok (counts, d) ∧
      counts.sum = mostPeriods c.rate first (first :: later) ∧
      (∀ latest, IsGreatest {now | now ∈ first :: later} latest →
        counts.sum = ((latest - first) * c.rate).floor) ∧
      d = { c with
        last := some (first + counts.sum / c.rate)
        delay := drained c.delay counts.sum
        sound := drained c.sound counts.sum } ∧
      (0 ≤ c.delay → d.delay = max 0 (c.delay - counts.sum)) ∧
      (0 ≤ c.sound → d.sound = max 0 (c.sound - counts.sum)) := by
  have last : some first = some (first + (0 : Int) / c.rate) := by simp
  obtain ⟨counts, forward, total, ticked⟩ :=
    tickAll_exact (c := { c with last := some first }) running le_rfl last later
  have sum : (0 :: counts).sum = mostPeriods c.rate first (first :: later) := by
    rw [List.sum_cons, total, mostPeriods_cons, periodsUntil_self]
  have nonneg : 0 ≤ (0 :: counts).sum := by rwa [List.sum_cons, zero_add]
  refine ⟨0 :: counts, _, ?_, sum, ?_, rfl, ?_, ?_⟩
  · simp only [tickAll, restart, tick, ticked, bind, Except.bind, pure, Except.pure, spend, List.sum_cons,
      zero_add]
  · intro latest greatest
    exact sum.trans (mostPeriods_of_latest running greatest)
  · intro counter
    exact drained_eq_lower counter nonneg
  · intro counter
    exact drained_eq_lower counter nonneg

/-- Three periods of a sixtieth of a second in five readings, one of which goes back. -/
theorem cadence_of_five_readings :
    let c : Countdown Rat := { delay := 10, sound := 2 }
    let later : List Rat := [5 + 1 / 100, 5 + 1 / 30, 4, 5 + 1 / 20 + 1 / 1000]
    ∃ counts d, c.restart.tickAll .exact (5 :: later) = .ok (counts, d) ∧ counts.sum = 3 ∧
      d.delay = 7 ∧ d.sound = 0 ∧ d.last = some (5 + 1 / 20) := by
  intro c later
  have running : 0 < c.rate := by decide
  obtain ⟨counts, d, ticked, sum, -, result, delay, sound⟩ := cadence_of_readings c running 5 later
  have three : counts.sum = 3 := sum.trans (by decide +kernel)
  rw [three] at result delay sound
  refine ⟨counts, d, ticked, three, delay (by decide), sound (by decide), ?_⟩
  rw [result]
  decide +kernel

end Chip8.Countdown
