import Chip8.Proofs.Binary64.Range
import Chip8.Proofs.Countdown.Tick

/-!
# Ticks in place

A tick overwrites the fields of the countdown one after another, between operations that can fail. Main
statements: `run_tickInPlace`, what is left behind is the result of the tick, or the countdown as it was;
`tick_error_iff`, in which cases a tick fails; `ticked_whole_or_not_at_all`, what it does to the counters.
-/

namespace Chip8.Countdown

open Binary64

/-- What is done to a countdown in place. Where it fails, all that has been written before stays written. -/
abbrev InPlace := ExceptT Failure (StateM (Countdown Binary64))

namespace InPlace

variable {α β : Type}

/-- The outcome, and the countdown that is left behind. -/
def run (p : InPlace α) (c : Countdown Binary64) : Except Failure α × Countdown Binary64 :=
  ExceptT.run p c

variable (c : Countdown Binary64)

@[simp] theorem run_pure (a : α) : run (pure a) c = (.ok a, c) := rfl

@[simp] theorem run_get : run get c = (.ok c, c) := rfl

@[simp] theorem run_modify (f : Countdown Binary64 → Countdown Binary64) :
    run (modify f) c = (.ok (), f c) := rfl

@[simp] theorem run_lift (x : Except Failure α) : run (liftM x) c = (x, c) := rfl

@[simp] theorem run_bind (p : InPlace α) (f : α → InPlace β) :
    run (p >>= f) c =
      match run p c with
      | (.ok a, d) => run (f a) d
      | (.error failure, d) => (.error failure, d) := by
  show ExceptT.bindCont f (run p c).1 (run p c).2 = _
  obtain ⟨outcome, d⟩ := run p c
  cases outcome <;> rfl

end InPlace

/-- A tick as the countdown sees it: its operations and its writes one after another. -/
def tickInPlace (now : Binary64) : InPlace Int := do
  match (← get).last with
  | none =>
      modify fun c => { c with last := some now }
      return 0
  | some last =>
      let period ← reciprocal (← get).rate
      let elapsed := now - last
      if period.isZero then throw .divisionByZero
      let count ← (elapsed.flooredQuotient period).toInt
      if count ≤ 0 then return 0
      let periods ← ofInt count
      modify fun c => { c with last := some (last + periods * period) }
      modify fun c => { c with delay := lower c.delay count }
      modify fun c => { c with sound := lower c.sound count }
      return count

/-- The last operation that can fail is the count of the periods, before anything is written: a period is
never zero, and a number of periods that has been counted can be turned back into a time. -/
theorem run_tickInPlace (now : Binary64) (c : Countdown Binary64) :
    (tickInPlace now).run c =
      match c.tick .binary64 now with
      | .ok (count, d) => (.ok count, d)
      | .error failure => (.error failure, c) := by
  simp only [tickInPlace, InPlace.run_bind, InPlace.run_get]
  cases reading : c.last with
  | none => simp only [tick, reading, InPlace.run_bind, InPlace.run_modify, InPlace.run_pure]
  | some last =>
      simp only [InPlace.run_bind, InPlace.run_get, InPlace.run_lift]
      cases lasting : reciprocal c.rate with
      | error failure =>
          simp only [tick, reading, Reckoning.binary64, lasting, bind, Except.bind]
      | ok period =>
          simp only [isZero_of_reciprocal lasting, Bool.false_eq_true, if_false, InPlace.run_bind,
            InPlace.run_lift]
          cases passed : ((now - last).flooredQuotient period).toInt with
          | error failure =>
              simp only [tick, reading, Reckoning.binary64, lasting, passed, bind, Except.bind]
          | ok count =>
              simp only
              by_cases early : count ≤ 0
              · simp only [if_pos early, InPlace.run_pure]
                simp only [tick, reading, Reckoning.binary64, lasting, passed, early, if_true, bind,
                  Except.bind, pure, Except.pure]
              · simp only [if_neg early, ofInt_of_toInt passed, InPlace.run_bind, InPlace.run_lift,
                  InPlace.run_modify, InPlace.run_pure]
                simp only [tick, reading, Reckoning.binary64, lasting, passed, early, if_false,
                  ofInt_of_toInt passed, bind, Except.bind, pure, Except.pure]

/-! ## Failures -/

/-- What a tick fails with once there is a last reading: the rate has no reciprocal, or the number of
periods since then is not a number or is infinite. -/
inductive Fails (c : Countdown Binary64) (now : Binary64) : Failure → Prop where
  | zeroRate {last : Binary64} (reading : c.last = some last) (zero : c.rate = 0) :
      Fails c now .divisionByZero
  | rateTooLarge {last : Binary64} (reading : c.last = some last) (large : overflow ≤ |(c.rate : Rat)|) :
      Fails c now .integerTooLarge
  | noNumber {last period : Binary64} (reading : c.last = some last)
      (lasting : reciprocal c.rate = .ok period)
      (passed : ((now - last).flooredQuotient period).reading = .nan) : Fails c now .nanToInteger
  | infinite {last period : Binary64} {negative : Bool} (reading : c.last = some last)
      (lasting : reciprocal c.rate = .ok period)
      (passed : ((now - last).flooredQuotient period).reading = .infinite negative) :
      Fails c now .infinityToInteger

theorem tick_eq_error {c : Countdown Binary64} {now : Binary64} {failure : Failure} :
    c.tick .binary64 now = .error failure ↔
      ∃ last, c.last = some last ∧
        (reciprocal c.rate = .error failure ∨
          ∃ period, reciprocal c.rate = .ok period ∧
            ((now - last).flooredQuotient period).toInt = .error failure) := by
  cases reading : c.last with
  | none => simp [tick, reading]
  | some last =>
      simp only [tick, reading, Reckoning.binary64, Option.some.injEq, exists_eq_left']
      cases lasting : reciprocal c.rate with
      | error other => simp [bind, Except.bind]
      | ok period =>
          simp only [reduceCtorEq, false_or, Except.ok.injEq, exists_eq_left']
          cases passed : ((now - last).flooredQuotient period).toInt with
          | error other => simp [bind, Except.bind, passed]
          | ok count =>
              simp only [bind, Except.bind, passed, ofInt_of_toInt passed, pure, Except.pure, reduceCtorEq,
                iff_false]
              split <;> simp

/-- A tick fails exactly in these cases; its writes are no longer among them. -/
theorem tick_error_iff {c : Countdown Binary64} {now : Binary64} {failure : Failure} :
    c.tick .binary64 now = .error failure ↔ c.Fails now failure := by
  rw [tick_eq_error]
  constructor
  · rintro ⟨last, reading, refused | ⟨period, lasting, uncounted⟩⟩
    · rcases reciprocal_error_iff.1 refused with ⟨zero, rfl⟩ | ⟨large, rfl⟩
      · exact .zeroRate reading zero
      · exact .rateTooLarge reading large
    · rcases toInt_error_iff.1 uncounted with ⟨nan, rfl⟩ | ⟨⟨negative, infinite⟩, rfl⟩
      · exact .noNumber reading lasting nan
      · exact .infinite reading lasting infinite
  · intro fails
    cases fails with
    | zeroRate reading zero =>
        exact ⟨_, reading, Or.inl (reciprocal_error_iff.2 (Or.inl ⟨zero, rfl⟩))⟩
    | rateTooLarge reading large =>
        exact ⟨_, reading, Or.inl (reciprocal_error_iff.2 (Or.inr ⟨large, rfl⟩))⟩
    | noNumber reading lasting nan =>
        exact ⟨_, reading, Or.inr ⟨_, lasting, toInt_error_iff.2 (Or.inl ⟨nan, rfl⟩)⟩⟩
    | infinite reading lasting infinite =>
        exact ⟨_, reading, Or.inr ⟨_, lasting, toInt_error_iff.2 (Or.inr ⟨⟨_, infinite⟩, rfl⟩)⟩⟩

/-! ## Counters -/

theorem lower_bounds {counter count : Int} (nonneg : 0 ≤ counter) (forward : 0 ≤ count) :
    0 ≤ lower counter count ∧ lower counter count ≤ counter := by
  unfold lower
  omega

/-- A tick that fails leaves everything as it was. Any other tick applies a number of periods, which
lowers both counters alike and never below zero; if it applies none, it only takes a first reading. -/
theorem ticked_whole_or_not_at_all (c : Countdown Binary64) (now : Binary64) :
    (∃ failure, c.tick .binary64 now = .error failure ∧ c.Fails now failure ∧
      (tickInPlace now).run c = (.error failure, c)) ∨
    ∃ count d, c.tick .binary64 now = .ok (count, d) ∧ (∀ failure, ¬ c.Fails now failure) ∧
      (tickInPlace now).run c = (.ok count, d) ∧ 0 ≤ count ∧ d.rate = c.rate ∧
      (count = 0 → d.delay = c.delay ∧ d.sound = c.sound ∧ (c.last ≠ none → d.last = c.last)) ∧
      (0 < count → d.delay = max 0 (c.delay - count) ∧ d.sound = max 0 (c.sound - count)) ∧
      (0 ≤ c.delay → 0 ≤ d.delay ∧ d.delay ≤ c.delay) ∧
      (0 ≤ c.sound → 0 ≤ d.sound ∧ d.sound ≤ c.sound) := by
  have inPlace := run_tickInPlace now c
  cases ticked : c.tick .binary64 now with
  | error failure =>
      rw [ticked] at inPlace
      exact Or.inl ⟨failure, rfl, tick_error_iff.1 ticked, inPlace⟩
  | ok result =>
      obtain ⟨count, d⟩ := result
      rw [ticked] at inPlace
      have works (failure : Failure) : ¬ c.Fails now failure := by
        intro fails
        have refused := tick_error_iff.2 fails
        rw [ticked] at refused
        cases refused
      refine Or.inr ⟨count, d, rfl, works, inPlace, ?_⟩
      rcases tick_cases ticked with ⟨first, rfl, rfl⟩ | ⟨last, period, whole, -, -, -, -, rfl, rfl⟩ |
        ⟨last, period, next, -, -, -, positive, -, rfl⟩
      · simp [first]
      · simp
      · refine ⟨positive.le, rfl, fun none => absurd none positive.ne', fun _ => ⟨rfl, rfl⟩, ?_, ?_⟩
        · exact fun nonneg => lower_bounds nonneg positive.le
        · exact fun nonneg => lower_bounds nonneg positive.le

end Chip8.Countdown
