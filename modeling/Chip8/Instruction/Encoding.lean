import Chip8.Instruction

/-!
# Words and instructions

Main statements: `decode?_encode`, the word of an instruction decodes to it, and
`encode_of_decode?`, a word decodes only to an instruction whose word it is. Hence
`decode?_eq_some_iff`: decoding accepts exactly the words of instructions.
-/

namespace Chip8.Instruction

theorem byte_eq {k : Nat} (b : UInt8) (value : k % 256 = b.toNat) : UInt8.ofNat k = b :=
  UInt8.toNat_inj.1 (by simpa using value)

theorem code_lt (o : Operation) : o.code < 16 := by
  cases o <;> decide

theorem code_of_ofCode? {n : Nat} {o : Operation} (found : Operation.ofCode? n = some o) :
    o.code = n := by
  unfold Operation.ofCode? at found
  split at found <;> cases found <;> rfl

/-! ## From instructions to words -/

theorem decode?_miscellany {i : Instruction} {x : Register} (last : Nat)
    (word : i.encode = 0xF000 + 0x100 * x + last) (small : last < 0x100)
    (found : ofMiscellany? x last = some i) : decode? i.encode = some i := by
  have group : (0xF000 + 0x100 * (x : Nat) + last) / 0x1000 = 15 := by omega
  have byte : (0xF000 + 0x100 * (x : Nat) + last) % 0x100 = last := by omega
  rw [word]
  simp only [decode?, group, byte]
  rw [Nibble.ofNat_eq x (by omega)]
  exact found

theorem decode?_encode (i : Instruction) : decode? i.encode = some i := by
  have byte_lt (b : UInt8) : b.toNat < 256 := b.toNat_lt
  cases i with
  | clear | ret => decide
  | jump target =>
      have group : (0x1000 + (target : Nat)) / 0x1000 = 1 := by omega
      simp only [decode?, encode, group]
      rw [Address.ofInt_eq target (by omega)]
  | call target =>
      have group : (0x2000 + (target : Nat)) / 0x1000 = 2 := by omega
      simp only [decode?, encode, group]
      rw [Address.ofInt_eq target (by omega)]
  | setIndex address =>
      have group : (0xA000 + (address : Nat)) / 0x1000 = 10 := by omega
      simp only [decode?, encode, group]
      rw [Address.ofInt_eq address (by omega)]
  | jumpOffset base =>
      have group : (0xB000 + (base : Nat)) / 0x1000 = 11 := by omega
      simp only [decode?, encode, group]
      rw [Address.ofInt_eq base (by omega)]
  | skipIfEqual x value =>
      have small := byte_lt value
      have group : (0x3000 + 0x100 * (x : Nat) + value.toNat) / 0x1000 = 3 := by omega
      simp only [decode?, encode, group]
      rw [Nibble.ofNat_eq x (by omega), byte_eq value (by omega)]
  | skipUnlessEqual x value =>
      have small := byte_lt value
      have group : (0x4000 + 0x100 * (x : Nat) + value.toNat) / 0x1000 = 4 := by omega
      simp only [decode?, encode, group]
      rw [Nibble.ofNat_eq x (by omega), byte_eq value (by omega)]
  | load x value =>
      have small := byte_lt value
      have group : (0x6000 + 0x100 * (x : Nat) + value.toNat) / 0x1000 = 6 := by omega
      simp only [decode?, encode, group]
      rw [Nibble.ofNat_eq x (by omega), byte_eq value (by omega)]
  | increase x value =>
      have small := byte_lt value
      have group : (0x7000 + 0x100 * (x : Nat) + value.toNat) / 0x1000 = 7 := by omega
      simp only [decode?, encode, group]
      rw [Nibble.ofNat_eq x (by omega), byte_eq value (by omega)]
  | random x mask =>
      have small := byte_lt mask
      have group : (0xC000 + 0x100 * (x : Nat) + mask.toNat) / 0x1000 = 12 := by omega
      simp only [decode?, encode, group]
      rw [Nibble.ofNat_eq x (by omega), byte_eq mask (by omega)]
  | skipIfSame x y =>
      have group : (0x1000 * 5 + 0x100 * (x : Nat) + 0x10 * y + 0) / 0x1000 = 5 := by omega
      have last : (0x1000 * 5 + 0x100 * (x : Nat) + 0x10 * y + 0) % 0x10 = 0 := by omega
      simp only [decode?, encode, wordOf, group, last, if_true]
      rw [Nibble.ofNat_eq x (by omega), Nibble.ofNat_eq y (by omega)]
  | skipUnlessSame x y =>
      have group : (0x1000 * 9 + 0x100 * (x : Nat) + 0x10 * y + 0) / 0x1000 = 9 := by omega
      have last : (0x1000 * 9 + 0x100 * (x : Nat) + 0x10 * y + 0) % 0x10 = 0 := by omega
      simp only [decode?, encode, wordOf, group, last, if_true]
      rw [Nibble.ofNat_eq x (by omega), Nibble.ofNat_eq y (by omega)]
  | combine operation x y =>
      have small := code_lt operation
      have group : (0x1000 * 8 + 0x100 * (x : Nat) + 0x10 * y + operation.code) / 0x1000 = 8 := by
        omega
      have last : (0x1000 * 8 + 0x100 * (x : Nat) + 0x10 * y + operation.code) % 0x10 =
          operation.code := by
        omega
      simp only [decode?, encode, wordOf, group, last, Operation.ofCode?_code, Option.map_some]
      rw [Nibble.ofNat_eq x (by omega), Nibble.ofNat_eq y (by omega)]
  | draw x y height =>
      have group : (0x1000 * 13 + 0x100 * (x : Nat) + 0x10 * y + height) / 0x1000 = 13 := by omega
      simp only [decode?, encode, wordOf, group]
      rw [Nibble.ofNat_eq x (by omega), Nibble.ofNat_eq y (by omega),
        Nibble.ofNat_eq height (by omega)]
  | skipIfPressed x =>
      have group : (0xE09E + 0x100 * (x : Nat)) / 0x1000 = 14 := by omega
      have last : (0xE09E + 0x100 * (x : Nat)) % 0x100 = 0x9E := by omega
      simp only [decode?, encode, group, last, if_true]
      rw [Nibble.ofNat_eq x (by omega)]
  | skipUnlessPressed x =>
      have group : (0xE0A1 + 0x100 * (x : Nat)) / 0x1000 = 14 := by omega
      have last : (0xE0A1 + 0x100 * (x : Nat)) % 0x100 = 0xA1 := by omega
      simp only [decode?, encode, group, last]
      rw [Nibble.ofNat_eq x (by omega)]
      rfl
  | readDelay x =>
      exact decode?_miscellany 0x07 (by simp only [encode]; omega) (by decide) rfl
  | awaitKey x =>
      exact decode?_miscellany 0x0A (by simp only [encode]; omega) (by decide) rfl
  | setDelay x =>
      exact decode?_miscellany 0x15 (by simp only [encode]; omega) (by decide) rfl
  | setSound x =>
      exact decode?_miscellany 0x18 (by simp only [encode]; omega) (by decide) rfl
  | advanceIndex x =>
      exact decode?_miscellany 0x1E (by simp only [encode]; omega) (by decide) rfl
  | selectGlyph x =>
      exact decode?_miscellany 0x29 (by simp only [encode]; omega) (by decide) rfl
  | storeDecimal x =>
      exact decode?_miscellany 0x33 (by simp only [encode]; omega) (by decide) rfl
  | storeRegisters x =>
      exact decode?_miscellany 0x55 (by simp only [encode]; omega) (by decide) rfl
  | loadRegisters x =>
      exact decode?_miscellany 0x65 (by simp only [encode]; omega) (by decide) rfl

/-! ## From words to instructions -/

theorem encode_of_miscellany {x : Register} {last : Nat} {i : Instruction}
    (found : ofMiscellany? x last = some i) : i.encode = 0xF000 + 0x100 * x + last := by
  unfold ofMiscellany? at found
  split at found <;> cases found <;> simp only [encode] <;> omega

theorem encode_of_decode? {word : Nat} {i : Instruction} (found : decode? word = some i) :
    i.encode = word := by
  have byte (k : Nat) : (UInt8.ofNat k).toNat = k % 256 := by simp
  unfold decode? at found
  simp only at found
  split at found
  case h_9 group =>
    obtain ⟨operation, code, rfl⟩ := Option.map_eq_some_iff.1 found
    have last := code_of_ofCode? code
    simp only [encode, wordOf, Nibble.val_ofNat, last]
    omega
  case h_16 group =>
    rw [encode_of_miscellany found, Nibble.val_ofNat]
    omega
  all_goals
    repeat' split at found
    all_goals cases found
    all_goals simp only [encode, wordOf, Nibble.val_ofNat, Address.val_ofInt, byte]
    all_goals omega

theorem decode?_eq_some_iff {word : Nat} {i : Instruction} :
    decode? word = some i ↔ i.encode = word :=
  ⟨encode_of_decode?, fun same => same ▸ decode?_encode i⟩

end Chip8.Instruction
