import Chip8.Window.Step

/-!
# The keys held down

Main statement: `heldBy_run`, the keys that a window takes for held are those whose latest input was a
press, the longest held first, however often they were pressed again, whatever the session does.
-/

namespace Chip8

/-- Whether the input presses or releases the key. -/
def Input.concerns (key : Int) : Input → Bool
  | .keyDown k | .keyUp k => k = key
  | _ => false

namespace Window

def Step.input? : Step → Option Input
  | .input i => some i
  | _ => none

def inputsOf (steps : List Step) : List Input :=
  steps.filterMap Step.input?

/-- The latest input that presses or releases the key. -/
def latest? (inputs : List Input) (key : Int) : Option Input :=
  inputs.reverse.find? (Input.concerns key)

/-- The key is none of the commands, and its latest input was a press. -/
def IsDown (inputs : List Input) (key : Int) : Prop :=
  Hotkey.ofKey? key = none ∧ latest? inputs key = some (.keyDown key)

/-- The input at place `i` is the first press of the key since it was last released. -/
structure WentDownAt (inputs : List Input) (key : Int) (i : Nat) : Prop where
  pressed : inputs[i]? = some (.keyDown key)
  kept : ∀ j > i, inputs[j]? ≠ some (.keyUp key)
  first : ∀ j < i, inputs[j]? = some (.keyDown key) → ∃ l, j < l ∧ l < i ∧ inputs[l]? = some (.keyUp key)

/-- The keys are held after the inputs, in the order in which they went down. -/
structure HeldBy (inputs : List Input) (held : List Int) : Prop where
  nodup : held.Nodup
  mem_iff : ∀ key, key ∈ held ↔ IsDown inputs key
  wentDown : ∀ key ∈ held, ∃ i, WentDownAt inputs key i
  order : held.Pairwise fun a b => ∃ i j, WentDownAt inputs a i ∧ WentDownAt inputs b j ∧ i < j

/-! ## The inputs of one key -/

section

variable {inputs : List Input} {input : Input} {key : Int}

theorem latest?_append :
    latest? (inputs ++ [input]) key = if input.concerns key then some input else latest? inputs key := by
  simp only [latest?, List.reverse_append, List.reverse_singleton, List.singleton_append, List.find?_cons]
  split <;> simp [*]

theorem isDown_append_of_other (other : input.concerns key = false) :
    IsDown (inputs ++ [input]) key ↔ IsDown inputs key := by
  simp [IsDown, latest?_append, other]

/-- A key whose latest input is no press was released after every press. -/
theorem exists_keyUp {j : Nat} (pressed : inputs[j]? = some (.keyDown key))
    (latest : latest? inputs key ≠ some (.keyDown key)) :
    ∃ l, j < l ∧ l < inputs.length ∧ inputs[l]? = some (.keyUp key) := by
  have member : Input.keyDown key ∈ inputs := List.mem_of_getElem? pressed
  cases found : latest? inputs key with
  | none =>
      have absent := List.find?_eq_none.1 found (.keyDown key) (List.mem_reverse.2 member)
      simp [Input.concerns] at absent
  | some x =>
      rw [found] at latest
      obtain ⟨concerns, after, before, split, others⟩ := List.find?_eq_some_iff_append.1 found
      have inputs_eq : inputs = before.reverse ++ x :: after.reverse := by
        rw [← List.reverse_reverse inputs, split]
        simp
      obtain rfl : x = .keyUp key := by
        cases x with
        | keyUp k => simpa [Input.concerns] using concerns
        | keyDown k =>
            have same : k = key := by simpa [Input.concerns] using concerns
            exact absurd (by rw [same]) latest
        | _ => simp [Input.concerns] at concerns
      rw [inputs_eq] at pressed ⊢
      refine ⟨before.length, ?_, by simp, by simp⟩
      rcases Nat.lt_trichotomy j before.length with earlier | rfl | later
      · exact earlier
      · simp at pressed
      · -- after the latest input of the key there is no press of it
        obtain ⟨d, rfl⟩ := Nat.exists_eq_add_of_lt later
        have there : Input.keyDown key ∈ after := by
          rw [List.getElem?_append_right (by simp; omega)] at pressed
          have place : before.length + d + 1 - before.reverse.length = d + 1 := by simp; omega
          rw [place, List.getElem?_cons_succ] at pressed
          exact List.mem_reverse.1 (List.mem_of_getElem? pressed)
        simpa [Input.concerns] using others _ there

theorem WentDownAt.append {i : Nat} (down : WentDownAt inputs key i) (kept : input ≠ .keyUp key) :
    WentDownAt (inputs ++ [input]) key i := by
  obtain ⟨inside, -⟩ := List.getElem?_eq_some_iff.1 down.pressed
  constructor
  · rw [List.getElem?_append_left inside, down.pressed]
  · intro j later released
    rcases Nat.lt_or_ge j inputs.length with before | behind
    · rw [List.getElem?_append_left before] at released
      exact down.kept j later released
    · rw [List.getElem?_append_right behind, List.getElem?_singleton] at released
      split at released
      · exact kept (Option.some.inj released)
      · cases released
  · intro j earlier pressed
    rw [List.getElem?_append_left (by omega)] at pressed
    obtain ⟨l, after, before, released⟩ := down.first j earlier pressed
    exact ⟨l, after, before, by rw [List.getElem?_append_left (by omega), released]⟩

theorem wentDownAt_length (up : latest? inputs key ≠ some (.keyDown key)) :
    WentDownAt (inputs ++ [.keyDown key]) key inputs.length := by
  constructor
  · simp
  · intro j later
    rw [List.getElem?_eq_none (by simp; omega)]
    simp
  · intro j earlier pressed
    rw [List.getElem?_append_left earlier] at pressed
    obtain ⟨l, after, before, released⟩ := exists_keyUp pressed up
    exact ⟨l, after, before, by rw [List.getElem?_append_left before, released]⟩

end

/-! ## The inputs of a window -/

section

variable {inputs : List Input} {input : Input} {held : List Int}

/-- After an input that puts no key down, the keys that are still held keep their order. -/
theorem HeldBy.remain (past : HeldBy inputs held) {remaining : List Int} (sublist : remaining.Sublist held)
    (mem_iff : ∀ key, key ∈ remaining ↔ IsDown (inputs ++ [input]) key)
    (kept : ∀ key ∈ remaining, input ≠ .keyUp key) : HeldBy (inputs ++ [input]) remaining where
  nodup := past.nodup.sublist sublist
  mem_iff := mem_iff
  wentDown key member := by
    obtain ⟨i, down⟩ := past.wentDown key (sublist.subset member)
    exact ⟨i, down.append (kept key member)⟩
  order := (past.order.sublist sublist).imp_of_mem fun {a b} first second => by
    rintro ⟨i, j, downFirst, downSecond, before⟩
    exact ⟨i, j, downFirst.append (kept a first), downSecond.append (kept b second), before⟩

theorem HeldBy.keep (past : HeldBy inputs held)
    (same : ∀ key, IsDown (inputs ++ [input]) key ↔ IsDown inputs key)
    (kept : ∀ key ∈ held, input ≠ .keyUp key) : HeldBy (inputs ++ [input]) held :=
  past.remain (.refl held) (fun key => (past.mem_iff key).trans (same key).symm) kept

theorem HeldBy.press (past : HeldBy inputs held) {key : Int} (plain : Hotkey.ofKey? key = none)
    (up : key ∉ held) : HeldBy (inputs ++ [.keyDown key]) (held ++ [key]) := by
  have latest : latest? inputs key ≠ some (.keyDown key) := fun down =>
    up ((past.mem_iff key).2 ⟨plain, down⟩)
  have moved {k : Int} {i : Nat} (down : WentDownAt inputs k i) :
      WentDownAt (inputs ++ [.keyDown key]) k i := down.append (by simp)
  have new := wentDownAt_length latest
  refine { nodup := ?_, mem_iff := fun k => ?_, wentDown := fun k member => ?_, order := ?_ }
  · refine List.nodup_append.2 ⟨past.nodup, by simp, ?_⟩
    rintro a old b here rfl
    exact up (List.mem_singleton.1 here ▸ old)
  · by_cases same : k = key
    · simp [same, IsDown, plain, latest?_append, Input.concerns]
    · have other : (Input.keyDown key).concerns k = false := by simpa [Input.concerns] using Ne.symm same
      rw [isDown_append_of_other other, ← past.mem_iff]
      simp [same]
  · rcases List.mem_append.1 member with old | here
    · obtain ⟨i, down⟩ := past.wentDown k old
      exact ⟨i, moved down⟩
    · obtain rfl := List.mem_singleton.1 here
      exact ⟨_, new⟩
  · refine List.pairwise_append.2 ⟨past.order.imp ?_, List.pairwise_singleton _ _, ?_⟩
    · rintro a b ⟨i, j, first, second, before⟩
      exact ⟨i, j, moved first, moved second, before⟩
    · intro a old b here
      obtain rfl := List.mem_singleton.1 here
      obtain ⟨i, down⟩ := past.wentDown a old
      obtain ⟨inside, -⟩ := List.getElem?_eq_some_iff.1 down.pressed
      exact ⟨i, _, moved down, new, inside⟩

theorem HeldBy.release (past : HeldBy inputs held) (key : Int) :
    HeldBy (inputs ++ [.keyUp key]) (held.erase key) := by
  have member_iff (k : Int) : k ∈ held.erase key ↔ k ≠ key ∧ k ∈ held := past.nodup.mem_erase_iff
  refine past.remain List.erase_sublist (fun k => ?_) fun k member => ?_
  · rw [member_iff]
    by_cases same : k = key
    · simp [same, IsDown, latest?_append, Input.concerns]
    · have other : (Input.keyUp key).concerns k = false := by simpa [Input.concerns] using Ne.symm same
      simp [isDown_append_of_other other, past.mem_iff, same]
  · simpa using Ne.symm ((member_iff k).1 member).1

theorem held_obey (w : Window) (hotkey : Hotkey) : (w.obey hotkey).held = w.held := by
  rw [obey_eq]

theorem held_forwardKey (w : Window) : w.forwardKey.held = w.held := by
  rw [forwardKey_eq]

theorem HeldBy.handle {w : Window} (past : HeldBy inputs w.held) (input : Input) :
    HeldBy (inputs ++ [input]) (w.handle input).held := by
  cases input with
  | keyDown key =>
      cases command : Hotkey.ofKey? key with
      | some hotkey =>
          simp only [Window.handle, command, held_obey]
          refine past.keep (fun k => ?_) (by simp)
          by_cases same : k = key
          · simp [same, IsDown, command]
          · exact isDown_append_of_other (by simpa [Input.concerns] using Ne.symm same)
      | none =>
          simp only [Window.handle, command]
          split
          · rename_i down
            refine past.keep (fun k => ?_) (by simp)
            by_cases same : k = key
            · obtain rfl := same
              exact iff_of_true ⟨command, by simp [latest?_append, Input.concerns]⟩ ((past.mem_iff k).1 down)
            · exact isDown_append_of_other (by simpa [Input.concerns] using Ne.symm same)
          · rename_i up
            exact past.press command up
  | keyUp key => exact past.release key
  | quit | other => exact past.keep (fun k => isDown_append_of_other rfl) (by simp)

end

theorem HeldBy.run {inputs : List Input} {w : Window} (past : HeldBy inputs w.held) (steps : List Step) :
    HeldBy (inputs ++ inputsOf steps) (w.run steps).held := by
  induction steps generalizing inputs w with
  | nil => simpa [inputsOf, Window.run] using past
  | cons step rest ih =>
      cases step with
      | input i =>
          have later := ih (past.handle i)
          rwa [List.append_assoc, List.singleton_append] at later
      | forward => exact ih (w := w.forwardKey) (held_forwardKey w ▸ past)
      | notifications => exact ih (w := w.handleNotifications) past
      | session a => exact ih (w := w.step (.session a)) past

theorem heldBy_run (session : Session) (scale : Int) (title : String) (steps : List Step) :
    HeldBy (inputsOf steps) ((create session scale title).run steps).held := by
  have new : HeldBy [] (create session scale title).held :=
    { nodup := .nil
      mem_iff := by simp [create, IsDown, latest?]
      wentDown := by simp [create]
      order := .nil }
  exact new.run steps

end Window

end Chip8
