import Chip8.Countdown

/-!
# Ticks

Main statement: `tick_cases`, a tick that succeeds takes its first reading, waits for a period to pass or
applies the periods that have passed.
-/

namespace Chip8.Countdown

variable {Time : Type} {reckoning : Reckoning Time} {now : Time} {c d : Countdown Time} {count : Int}

theorem tick_cases (ticked : c.tick reckoning now = .ok (count, d)) :
    (c.last = none ∧ count = 0 ∧ d = { c with last := some now }) ∨
    (∃ last period whole, c.last = some last ∧ reckoning.period c.rate = .ok period ∧
      reckoning.wholePeriods (reckoning.elapsed now last) period = .ok whole ∧ whole ≤ 0 ∧
      count = 0 ∧ d = c) ∨
    (∃ last period next, c.last = some last ∧ reckoning.period c.rate = .ok period ∧
      reckoning.wholePeriods (reckoning.elapsed now last) period = .ok count ∧ 0 < count ∧
      reckoning.advance last count period = .ok next ∧
      d = { c with last := some next, delay := lower c.delay count, sound := lower c.sound count }) := by
  unfold tick at ticked
  split at ticked
  · rename_i first
    cases ticked
    exact Or.inl ⟨first, rfl, rfl⟩
  · rename_i last reading
    simp only [bind, Except.bind, pure, Except.pure] at ticked
    split at ticked
    · cases ticked
    · rename_i period lasting
      split at ticked
      · cases ticked
      · rename_i whole passed
        split at ticked
        · rename_i early
          cases ticked
          exact Or.inr (Or.inl ⟨last, period, whole, reading, lasting, passed, early, rfl, rfl⟩)
        · rename_i due
          have positive : 0 < whole := Int.not_le.1 due
          split at ticked
          · cases ticked
          · rename_i next moved
            cases ticked
            exact Or.inr (Or.inr ⟨last, period, next, reading, lasting, passed, positive, moved, rfl⟩)

theorem counters_tick (ticked : c.tick reckoning now = .ok (count, d)) :
    0 ≤ count ∧ (d.delay = c.delay ∨ d.delay = lower c.delay count) ∧
      (d.sound = c.sound ∨ d.sound = lower c.sound count) := by
  rcases tick_cases ticked with ⟨-, rfl, rfl⟩ | ⟨last, period, whole, -, -, -, -, rfl, rfl⟩ |
    ⟨last, period, next, -, -, -, positive, -, rfl⟩
  · exact ⟨Int.le_refl 0, Or.inl rfl, Or.inl rfl⟩
  · exact ⟨Int.le_refl 0, Or.inl rfl, Or.inl rfl⟩
  · exact ⟨Int.le_of_lt positive, Or.inr rfl, Or.inr rfl⟩

end Chip8.Countdown
