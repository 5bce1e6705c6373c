import Chip8.Proofs.Machine.Core

/-!
# Subroutines

A call stores the address behind it, and a return goes to the address that was stored last. Main
statements: `Run.stack_eq`, a run does to the call stack what its calls and returns amount to once those
that belong together are struck out; `linked_subroutines`, how calls and returns belong together in the
runs of a loaded program.
-/

namespace Chip8

open Instruction (decode?)

/-- A call, with the address behind it, or a return. -/
inductive Transfer where
  | call (back : Int)
  | ret
  deriving DecidableEq, Repr

namespace Transfer

def isCall : Transfer → Bool
  | .call _ => true
  | .ret => false

def calls (transfers : List Transfer) : Nat :=
  transfers.countP isCall

def returns (transfers : List Transfer) : Nat :=
  transfers.count .ret

/-- How many returns go back further than the list. -/
def looseReturns : List Transfer → Nat
  | [] => 0
  | .call _ :: rest => looseReturns rest - 1
  | .ret :: rest => looseReturns rest + 1

/-- The addresses behind the calls that no return of the list answers, the latest first. A call is
answered by the first return behind it that answers no later call. -/
def looseCalls : List Transfer → List Int
  | [] => []
  | .call back :: rest =>
      if looseReturns rest = 0 then looseCalls rest ++ [back] else looseCalls rest
  | .ret :: rest => looseCalls rest

/-- The stack that the transfers make of a stack. -/
def settle (stack : List Int) (transfers : List Transfer) : List Int :=
  looseCalls transfers ++ stack.drop (looseReturns transfers)

/-- At no point have there been more returns than calls. -/
def StaysUp (transfers : List Transfer) : Prop :=
  ∀ begun, begun <+: transfers → returns begun ≤ calls begun

/-- The transfers never go below the depth at which they start, and end at it. -/
structure Balanced (transfers : List Transfer) : Prop where
  staysUp : StaysUp transfers
  even : returns transfers = calls transfers

section

variable (back : Int) (rest : List Transfer)

@[simp] theorem calls_nil : calls [] = 0 := rfl

@[simp] theorem calls_call : calls (.call back :: rest) = calls rest + 1 :=
  List.countP_cons_of_pos rfl

@[simp] theorem calls_ret : calls (.ret :: rest) = calls rest :=
  List.countP_cons_of_neg Bool.false_ne_true

@[simp] theorem returns_nil : returns [] = 0 := rfl

@[simp] theorem returns_call : returns (.call back :: rest) = returns rest :=
  List.count_cons_of_ne (by simp)

@[simp] theorem returns_ret : returns (.ret :: rest) = returns rest + 1 :=
  List.count_cons_self

end

/-! ## Loose ends -/

theorem forall_prefix_cons {first : Transfer} {rest : List Transfer} {p : List Transfer → Prop} :
    (∀ begun, begun <+: first :: rest → p begun) ↔
      p [] ∧ ∀ begun, begun <+: rest → p (first :: begun) := by
  simp only [List.prefix_cons_iff]
  constructor
  · intro all
    exact ⟨all [] (Or.inl rfl), fun begun started => all _ (Or.inr ⟨begun, rfl, started⟩)⟩
  · rintro ⟨none, some⟩ _ (rfl | ⟨begun, rfl, started⟩)
    · exact none
    · exact some begun started

theorem looseReturns_le_iff (transfers : List Transfer) (depth : Nat) :
    looseReturns transfers ≤ depth ↔
      ∀ begun, begun <+: transfers → returns begun ≤ calls begun + depth := by
  induction transfers generalizing depth with
  | nil => simp [looseReturns]
  | cons first rest ih =>
      rw [forall_prefix_cons]
      -- Behind the first transfer the rest starts one level higher or lower.
      cases first with
      | call back => simpa [looseReturns, Nat.add_right_comm, Nat.add_assoc] using ih (depth + 1)
      | ret =>
          cases depth with
          | zero =>
              have sinks : ¬ ∀ begun, begun <+: rest → returns (.ret :: begun) ≤ calls (.ret :: begun) := by
                intro all
                simpa using all [] List.nil_prefix
              exact iff_of_false (by simp [looseReturns]) fun both => sinks both.2
          | succ depth => simpa [looseReturns, ← Nat.add_assoc] using ih depth

theorem looseReturns_eq_zero_iff {transfers : List Transfer} :
    looseReturns transfers = 0 ↔ StaysUp transfers := by
  rw [← Nat.le_zero]
  exact looseReturns_le_iff transfers 0

theorem length_looseCalls (transfers : List Transfer) :
    (looseCalls transfers).length + returns transfers = calls transfers + looseReturns transfers := by
  induction transfers with
  | nil => rfl
  | cons first rest ih =>
      cases first with
      | call back =>
          simp only [looseCalls, looseReturns, calls_call, returns_call]
          split
          · rw [List.length_append, List.length_singleton]
            omega
          · omega
      | ret =>
          simp only [looseCalls, looseReturns, calls_ret, returns_ret]
          omega

theorem balanced_iff {transfers : List Transfer} :
    Balanced transfers ↔ looseReturns transfers = 0 ∧ looseCalls transfers = [] := by
  have count := length_looseCalls transfers
  constructor
  · rintro ⟨staysUp, even⟩
    have closed : looseReturns transfers = 0 := looseReturns_eq_zero_iff.2 staysUp
    refine ⟨closed, List.eq_nil_of_length_eq_zero ?_⟩
    omega
  · rintro ⟨closed, answered⟩
    refine ⟨looseReturns_eq_zero_iff.1 closed, ?_⟩
    rw [answered, closed, List.length_nil] at count
    omega

theorem settle_call (stack : List Int) (back : Int) (rest : List Transfer) :
    settle stack (.call back :: rest) = settle (back :: stack) rest := by
  simp only [settle, looseCalls, looseReturns]
  cases looseReturns rest with
  | zero => simp
  | succ depth => simp

theorem settle_ret (top : Int) (older : List Int) (rest : List Transfer) :
    settle (top :: older) (.ret :: rest) = settle older rest := rfl

theorem settle_of_balanced {transfers : List Transfer} (balanced : Balanced transfers)
    (stack : List Int) : settle stack transfers = stack := by
  obtain ⟨closed, answered⟩ := balanced_iff.1 balanced
  rw [settle, closed, answered]
  rfl

/-- The latest call that is not answered has nothing but balanced transfers behind it. -/
theorem split_of_looseCalls {transfers : List Transfer} {top : Int} {older : List Int}
    (loose : looseCalls transfers = top :: older) :
    ∃ before between, transfers = before ++ .call top :: between ∧ Balanced between := by
  induction transfers generalizing older with
  | nil => cases loose
  | cons first rest ih =>
      have deeper {others : List Int} (later : looseCalls rest = top :: others) :
          ∃ before between, first :: rest = before ++ .call top :: between ∧ Balanced between := by
        obtain ⟨before, between, rfl, balanced⟩ := ih later
        exact ⟨first :: before, between, rfl, balanced⟩
      cases first with
      | ret => exact deeper loose
      | call back =>
          simp only [looseCalls] at loose
          split at loose
          · rename_i closed
            cases inside : looseCalls rest with
            | nil =>
                rw [inside] at loose
                cases loose
                exact ⟨[], rest, rfl, balanced_iff.2 ⟨closed, inside⟩⟩
            | cons latest others =>
                rw [inside] at loose
                cases loose
                exact deeper inside
          · exact deeper loose

end Transfer

namespace Machine

/-- The transfer that the next cycle carries out, if it carries one out. -/
def transfer? (m : Machine) : Option Transfer :=
  match m.cycle.failure, decode? m.fetch with
  | none, some (.call _) => some (.call (wrap (m.pc + 2)))
  | none, some .ret => some .ret
  | _, _ => none

/-! ## The call stack in a cycle -/

theorem refusal_cases {m : Machine} {i : Instruction} {refusal : Refusal}
    (refused : m.execute i = .error refusal) :
    (i = .ret ∧ m.stack = [] ∧ refusal = .stackUnderflow) ∨
    (∃ target, i = .call target ∧ stackDepth ≤ m.stack.length ∧ refusal = .stackOverflow) ∨
    (∃ defect, refusal = .defect defect) := by
  cases i with
  | ret =>
      simp only [execute, ret] at refused
      split at refused <;> cases refused
      rename_i empty
      exact Or.inl ⟨rfl, empty, rfl⟩
  | call target =>
      simp only [execute, call] at refused
      split at refused <;> cases refused
      rename_i full
      exact Or.inr (Or.inl ⟨target, rfl, full, rfl⟩)
  | readDelay x =>
      simp only [execute, readDelay] at refused
      split at refused <;> cases refused
      exact Or.inr (Or.inr ⟨_, rfl⟩)
  | storeDecimal x =>
      simp only [execute, storeDecimal] at refused
      split at refused <;> cases refused
      exact Or.inr (Or.inr ⟨_, rfl⟩)
  | _ => cases refused

theorem stack_execute {m done : Machine} {i : Instruction} (executed : m.execute i = .ok done)
    (noReturn : i ≠ .ret) (noCall : ∀ target, i ≠ .call target) : done.stack = m.stack := by
  refine (agree_execute executed).stack ?_
  cases i with
  | ret => exact absurd rfl noReturn
  | call target => exact absurd rfl (noCall target)
  | awaitKey x =>
      simp only [footprint]
      split <;> rfl
  | _ => rfl

theorem stack_cycle_of_failure {m : Machine} {failure : Failure}
    (failed : m.cycle.failure = some failure) : m.cycle.machine.stack = m.stack := by
  rw [machine_cycle_of_failure failed]
  rfl

/-- A cycle calls, returns or leaves the stack alone. -/
theorem stack_cycle_cases (m : Machine) :
    (m.transfer? = none ∧ m.cycle.machine.stack = m.stack) ∨
    (m.transfer? = some (.call (wrap (m.pc + 2))) ∧ m.stack.length < stackDepth ∧
      m.cycle.machine.stack = wrap (m.pc + 2) :: m.stack) ∨
    (∃ top rest, m.transfer? = some .ret ∧ m.stack = top :: rest ∧
      m.cycle.machine.stack = rest ∧ m.cycle.machine.pc = top) := by
  unfold transfer?
  cases failed : m.cycle.failure with
  | some failure => exact Or.inl ⟨rfl, stack_cycle_of_failure failed⟩
  | none =>
      obtain ⟨i, decoded, executed⟩ := executed_of_works failed
      rw [decoded]
      cases i with
      | call target =>
          obtain ⟨shallow, done⟩ := call_eq_ok executed
          rw [done]
          exact Or.inr (Or.inl ⟨rfl, shallow, rfl⟩)
      | ret =>
          obtain ⟨top, rest, stack, done⟩ := ret_eq_ok executed
          rw [done]
          exact Or.inr (Or.inr ⟨top, rest, rfl, stack, rfl, rfl⟩)
      | _ =>
          have kept : m.cycle.machine.stack = m.advance.stack := stack_execute executed nofun nofun
          exact Or.inl ⟨rfl, kept⟩

theorem overflow_iff {m : Machine} (shallow : m.stack.length ≤ stackDepth) :
    (∃ pc, m.cycle.failure = some (.fault ⟨.stackOverflow, pc⟩)) ↔
      (∃ target, decode? m.fetch = some (.call target)) ∧ m.stack.length = stackDepth := by
  constructor
  · rintro ⟨pc, failed⟩
    obtain ⟨-, unsupported⟩ | ⟨i, refusal, decoded, refused, same⟩ := failure_cases failed
    · cases unsupported
    · rcases refusal_cases refused with ⟨-, -, rfl⟩ | ⟨target, rfl, full, -⟩ | ⟨defect, rfl⟩
      · cases same
      · exact ⟨⟨target, decoded⟩, Nat.le_antisymm shallow full⟩
      · cases same
  · rintro ⟨⟨target, decoded⟩, full⟩
    have refused : m.advance.execute (.call target) = .error .stackOverflow :=
      if_pos (Nat.le_of_eq full.symm)
    exact ⟨m.advance.pc - 2, by simp only [cycle, decoded, refused, failureOf]⟩

theorem underflow_iff (m : Machine) :
    (∃ pc, m.cycle.failure = some (.fault ⟨.stackUnderflow, pc⟩)) ↔
      decode? m.fetch = some .ret ∧ m.stack = [] := by
  constructor
  · rintro ⟨pc, failed⟩
    obtain ⟨-, unsupported⟩ | ⟨i, refusal, decoded, refused, same⟩ := failure_cases failed
    · cases unsupported
    · rcases refusal_cases refused with ⟨rfl, empty, -⟩ | ⟨target, rfl, -, rfl⟩ | ⟨defect, rfl⟩
      · exact ⟨decoded, empty⟩
      · cases same
      · cases same
  · rintro ⟨decoded, empty⟩
    have same : m.advance.stack = [] := empty
    have refused : m.advance.execute .ret = .error .stackUnderflow := by
      simp only [execute, ret, same]
    exact ⟨m.advance.pc - 2, by simp only [cycle, decoded, refused, failureOf]⟩

/-! ## Runs -/

/-- The run of cycles from the first machine to the last; the trace holds the machine before each of them.
A cycle may fail. The host may replace the keys, the key map and the timers at any time. -/
inductive Run : Machine → List Machine → Machine → Prop
  | done (m : Machine) : Run m [] m
  | cycle {m n : Machine} {trace : List Machine} (rest : Run m.cycle.machine trace n) :
      Run m (m :: trace) n
  | rehost {m n : Machine} {trace : List Machine} (host : Machine) (rest : Run (m.rehosted host) trace n) :
      Run m trace n

theorem Run.press {m n : Machine} {trace : List Machine} {key : Option Int}
    (rest : (m.press key).Run trace n) : m.Run trace n :=
  .rehost (m.press key) rest

def transfers (trace : List Machine) : List Transfer :=
  trace.filterMap transfer?

theorem Run.split {m n c : Machine} {before between : List Machine}
    (ran : m.Run (before ++ c :: between) n) : m.Run before c ∧ c.cycle.machine.Run between n := by
  generalize whole : before ++ c :: between = trace at ran
  induction ran generalizing before with
  | done m => simp at whole
  | rehost host _ ih =>
      obtain ⟨early, late⟩ := ih whole
      exact ⟨.rehost host early, late⟩
  | cycle rest ih =>
      cases before with
      | nil =>
          cases whole
          exact ⟨.done c, rest⟩
      | cons first before =>
          cases whole
          obtain ⟨early, late⟩ := ih rfl
          exact ⟨.cycle early, late⟩

open Transfer (looseCalls looseReturns settle StaysUp Balanced calls returns)

/-- A run only returns to addresses that are on the stack, and leaves what its transfers make of it. -/
theorem Run.stack_eq {m n : Machine} {trace : List Machine} (ran : m.Run trace n) :
    looseReturns (transfers trace) ≤ m.stack.length ∧ n.stack = settle m.stack (transfers trace) := by
  induction ran with
  | done m => exact ⟨Nat.zero_le _, rfl⟩
  | rehost host _ ih => exact ih
  | @cycle m n trace rest ih =>
      rcases stack_cycle_cases m with ⟨moved, stack⟩ | ⟨moved, -, stack⟩ |
        ⟨top, older, moved, full, stack, -⟩
      · rw [stack] at ih
        simpa only [transfers, List.filterMap_cons_none moved] using ih
      · rw [stack, List.length_cons] at ih
        simp only [transfers, List.filterMap_cons_some moved, Transfer.settle_call, looseReturns]
        exact ⟨Nat.sub_le_of_le_add ih.1, ih.2⟩
      · rw [stack] at ih
        simp only [transfers, List.filterMap_cons_some moved, full, Transfer.settle_ret, looseReturns]
        exact ⟨Nat.succ_le_succ ih.1, ih.2⟩

theorem Run.length_stack_le {m n : Machine} {trace : List Machine} (ran : m.Run trace n)
    (shallow : m.stack.length ≤ stackDepth) : n.stack.length ≤ stackDepth := by
  induction ran with
  | done m => exact shallow
  | rehost host _ ih => exact ih shallow
  | @cycle m n trace rest ih =>
      apply ih
      rcases stack_cycle_cases m with ⟨-, stack⟩ | ⟨-, room, stack⟩ | ⟨top, older, -, full, stack, -⟩
      · rw [stack]
        exact shallow
      · rw [stack]
        exact room
      · rw [full] at shallow
        rw [stack]
        exact Nat.le_of_succ_le shallow

theorem stack_cycle_of_call {m : Machine} {back : Int} (calls : m.transfer? = some (.call back)) :
    back = wrap (m.pc + 2) ∧ m.cycle.machine.stack = back :: m.stack := by
  rcases stack_cycle_cases m with ⟨moved, -⟩ | ⟨moved, -, stack⟩ | ⟨top, older, moved, -, -, -⟩
  · rw [moved] at calls
    cases calls
  · rw [moved] at calls
    cases calls
    exact ⟨rfl, stack⟩
  · rw [moved] at calls
    cases calls

theorem stack_cycle_of_ret {m : Machine} (returns : m.transfer? = some .ret) :
    m.stack = m.cycle.machine.pc :: m.cycle.machine.stack := by
  rcases stack_cycle_cases m with ⟨moved, -⟩ | ⟨moved, -, -⟩ | ⟨top, older, -, full, stack, pc⟩
  · rw [moved] at returns
    cases returns
  · rw [moved] at returns
    cases returns
  · rw [full, stack, pc]

/-- A return answers a call, with nothing but balanced transfers in between, and goes to the address
behind it. -/
theorem Run.call_of_return {m n : Machine} {trace : List Machine} (ran : m.Run trace n)
    (empty : m.stack = []) (returns : n.transfer? = some .ret) :
    ∃ before c between, trace = before ++ c :: between ∧
      c.transfer? = some (.call (wrap (c.pc + 2))) ∧ Balanced (transfers between) ∧
      n.cycle.machine.pc = wrap (c.pc + 2) ∧ n.cycle.machine.stack = c.stack := by
  have full := stack_cycle_of_ret returns
  have loose : looseCalls (transfers trace) = n.stack := by
    rw [ran.stack_eq.2, empty, settle, List.drop_nil, List.append_nil]
  obtain ⟨early, late, parts, balanced⟩ := Transfer.split_of_looseCalls (loose.trans full)
  obtain ⟨before, rest, rfl, -, later⟩ := List.filterMap_eq_append_iff.1 parts
  obtain ⟨skipped, c, between, rfl, -, called, rfl⟩ := List.filterMap_eq_cons_iff.1 later
  rw [← List.append_assoc] at ran
  obtain ⟨back, stack⟩ := stack_cycle_of_call called
  have kept : n.stack = c.cycle.machine.stack :=
    ran.split.2.stack_eq.2.trans (Transfer.settle_of_balanced balanced _)
  rw [full, stack] at kept
  obtain ⟨-, older⟩ := List.cons.inj kept
  exact ⟨before ++ skipped, c, between, (List.append_assoc ..).symm, back ▸ called, balanced, back, older⟩

/-- In the runs of a loaded program the stack holds the return addresses of the calls that have not been
answered, at most sixteen. A balanced stretch of a run leaves it as it was, and each return goes behind
its own call. A cycle fails for the stack exactly if it calls with sixteen calls to answer or returns with
none, and a failed cycle leaves the stack alone. -/
theorem linked_subroutines (keyMap : KeyMap) (random : Random.Source) (program : Program)
    {trace : List Machine} {m : Machine} (ran : ((fresh keyMap random).load program).Run trace m) :
    let done := transfers trace
    m.stack = looseCalls done ∧ StaysUp done ∧ m.stack.length + returns done = calls done ∧
      m.stack.length ≤ 16 ∧
      (∀ stretch n, m.Run stretch n → Balanced (transfers stretch) → n.stack = m.stack) ∧
      (m.transfer? = some .ret → ∃ before c between, trace = before ++ c :: between ∧
        c.transfer? = some (.call (wrap (c.pc + 2))) ∧ Balanced (transfers between) ∧
        m.cycle.machine.pc = wrap (c.pc + 2) ∧ m.cycle.machine.stack = c.stack) ∧
      ((∃ pc, m.cycle.failure = some (.fault ⟨.stackOverflow, pc⟩)) ↔
        (∃ target, decode? m.fetch = some (.call target)) ∧ (looseCalls done).length = 16) ∧
      ((∃ pc, m.cycle.failure = some (.fault ⟨.stackUnderflow, pc⟩)) ↔
        decode? m.fetch = some .ret ∧ looseCalls done = []) ∧
      (∀ failure, m.cycle.failure = some failure → m.cycle.machine.stack = m.stack) := by
  intro done
  obtain ⟨none, settled⟩ := ran.stack_eq
  have closed : looseReturns done = 0 := Nat.le_zero.1 none
  have stack : m.stack = looseCalls done := by
    rw [settled, settle, closed]
    exact List.append_nil _
  have depth : m.stack.length ≤ stackDepth := ran.length_stack_le (Nat.zero_le _)
  refine ⟨stack, Transfer.looseReturns_eq_zero_iff.1 closed, ?_, depth, ?_, ran.call_of_return rfl, ?_, ?_,
    fun _ failed => stack_cycle_of_failure failed⟩
  · rw [stack, Transfer.length_looseCalls, closed, Nat.add_zero]
  · intro stretch n further balanced
    rw [further.stack_eq.2, Transfer.settle_of_balanced balanced]
  · rw [← stack]
    exact overflow_iff depth
  · rw [← stack]
    exact underflow_iff m

/-- Two calls, one inside the other, and three returns, the last of which has no call to answer. -/
theorem linked_nested_calls :
    let program : Program :=
      ⟨[0x22, 0x04, 0x00, 0xEE, 0x22, 0x08, 0x00, 0xEE, 0x00, 0xEE], by decide, by decide⟩
    let start := (fresh .default .silent).load program
    let outer := start.press (some 48)
    let inner := outer.cycle.machine
    let leaf := inner.cycle.machine
    let back := leaf.cycle.machine
    let home := back.cycle.machine
    leaf.stack = [0x206, 0x202] ∧ leaf.stack = looseCalls (transfers [outer, inner]) ∧
      back.stack = [0x202] ∧ home.pc = 0x202 ∧ home.stack.length + 2 = 2 ∧
      ∃ pc, home.cycle.failure = some (.fault ⟨.stackUnderflow, pc⟩) := by
  intro program start outer inner leaf back home
  have called : start.Run [outer, inner] leaf := .press (.cycle (.cycle (.done leaf)))
  have returned : start.Run [outer, inner, leaf, back] home :=
    .press (.cycle (.cycle (.cycle (.cycle (.done home)))))
  obtain ⟨stack, -⟩ := linked_subroutines .default .silent program called
  obtain ⟨-, -, count, -, -, -, -, underflow, -⟩ :=
    linked_subroutines .default .silent program returned
  have evaluated : leaf.stack = [0x206, 0x202] ∧ back.stack = [0x202] ∧ home.pc = 0x202 ∧
      transfers [outer, inner, leaf, back] = [.call 0x202, .call 0x206, .ret, .ret] ∧
      decode? home.fetch = some .ret := by decide +kernel
  obtain ⟨deep, shallow, pc, done, decoded⟩ := evaluated
  rw [done] at count underflow
  exact ⟨deep, stack, shallow, pc, count, underflow.2 ⟨decoded, rfl⟩⟩

end Machine

end Chip8
