import Chip8.Text.Utf8
import Mathlib.Data.Char

/-!
# What is decoded

Main statement: `decode_eq_ok_iff`, bytes are decoded to a text if and only if they are its encoding.
-/

namespace Chip8.Text.Utf8

/-! ## Sequences -/

def IsTail (b : UInt8) : Prop :=
  0x80 ≤ b.toNat ∧ b.toNat ≤ 0xBF

/-- The bytes are the sequence of the character with this code: no longer than needed for it, below
0x110000 and no surrogate. -/
inductive Sequence : List UInt8 → Nat → Prop where
  | one {a : UInt8} (ascii : a.toNat < 0x80) : Sequence [a] a.toNat
  | two {a b : UInt8} (first : 0xC2 ≤ a.toNat ∧ a.toNat ≤ 0xDF) (second : IsTail b) :
      Sequence [a, b] (64 * (a.toNat % 32) + b.toNat % 64)
  | three {a b c : UInt8} (first : 0xE0 ≤ a.toNat ∧ a.toNat ≤ 0xEF) (second : IsTail b) (third : IsTail c)
      (notShorter : a.toNat = 0xE0 → 0xA0 ≤ b.toNat) (notSurrogate : a.toNat = 0xED → b.toNat ≤ 0x9F) :
      Sequence [a, b, c] (64 * (64 * (a.toNat % 16) + b.toNat % 64) + c.toNat % 64)
  | four {a b c d : UInt8} (first : 0xF0 ≤ a.toNat ∧ a.toNat ≤ 0xF4) (second : IsTail b) (third : IsTail c)
      (fourth : IsTail d) (notShorter : a.toNat = 0xF0 → 0x90 ≤ b.toNat)
      (notBeyond : a.toNat = 0xF4 → b.toNat ≤ 0x8F) :
      Sequence [a, b, c, d]
        (64 * (64 * (64 * (a.toNat % 8) + b.toNat % 64) + c.toNat % 64) + d.toNat % 64)

theorem ofNat_eq {n : Nat} {b : UInt8} (same : n = b.toNat) : UInt8.ofNat n = b := by
  rw [same, UInt8.ofNat_toNat]

theorem toNat_ofNat {n : Nat} (valid : n.isValidChar) : (Char.ofNat n).val.toNat = n := by
  rw [Char.ofNat, dif_pos valid]
  rfl

theorem encode_of_sequence {bytes : List UInt8} {code : Nat} (sequence : Sequence bytes code) :
    String.utf8EncodeChar (Char.ofNat code) = bytes := by
  cases sequence with
  | @one a ascii =>
      have valid : a.toNat.isValidChar := Or.inl (by omega)
      simp only [String.utf8EncodeChar, toNat_ofNat valid]
      rw [if_pos (by omega), UInt8.ofNat_toNat]
  | @two a b first second =>
      obtain ⟨low, high⟩ := second
      have valid : (64 * (a.toNat % 32) + b.toNat % 64).isValidChar := Or.inl (by omega)
      simp only [String.utf8EncodeChar, toNat_ofNat valid]
      rw [if_neg (by omega), if_pos (by omega), ofNat_eq (b := a) (by omega), ofNat_eq (b := b) (by omega)]
  | @three a b c first second third notShorter notSurrogate =>
      obtain ⟨low, high⟩ := second
      obtain ⟨low', high'⟩ := third
      have valid : (64 * (64 * (a.toNat % 16) + b.toNat % 64) + c.toNat % 64).isValidChar := by
        rw [Nat.isValidChar]
        omega
      simp only [String.utf8EncodeChar, toNat_ofNat valid]
      rw [if_neg (by omega), if_neg (by omega), if_pos (by omega), ofNat_eq (b := a) (by omega),
        ofNat_eq (b := b) (by omega), ofNat_eq (b := c) (by omega)]
  | @four a b c d first second third fourth notShorter notBeyond =>
      obtain ⟨low, high⟩ := second
      obtain ⟨low', high'⟩ := third
      obtain ⟨low'', high''⟩ := fourth
      have valid :
          (64 * (64 * (64 * (a.toNat % 8) + b.toNat % 64) + c.toNat % 64) + d.toNat % 64).isValidChar := by
        rw [Nat.isValidChar]
        omega
      simp only [String.utf8EncodeChar, toNat_ofNat valid]
      rw [if_neg (by omega), if_neg (by omega), if_neg (by omega), ofNat_eq (b := a) (by omega),
        ofNat_eq (b := b) (by omega), ofNat_eq (b := c) (by omega), ofNat_eq (b := d) (by omega)]

theorem sequence_encode (c : Char) : Sequence (String.utf8EncodeChar c) c.toNat := by
  have valid : c.val.toNat < 0xD800 ∨ 0xDFFF < c.val.toNat ∧ c.val.toNat < 0x110000 := c.valid
  have byte {n : Nat} (small : n < 0x100) : (UInt8.ofNat n).toNat = n := UInt8.toNat_ofNat_of_lt small
  have tail (n : Nat) : IsTail (UInt8.ofNat (n % 64 + 0x80)) := by
    rw [IsTail, byte (by omega)]
    omega
  simp only [String.utf8EncodeChar, Char.toNat]
  generalize c.val.toNat = v at valid
  split
  · have sequence := Sequence.one (a := UInt8.ofNat v) (by rw [byte] <;> omega)
    rwa [byte (by omega)] at sequence
  split
  · have sequence := Sequence.two (a := UInt8.ofNat (v / 64 % 32 + 0xC0)) (by rw [byte] <;> omega) (tail v)
    have code : 64 * ((v / 64 % 32 + 0xC0) % 32) + (v % 64 + 0x80) % 64 = v := by omega
    rwa [byte (by omega), byte (by omega), code] at sequence
  split
  · have first : (UInt8.ofNat (v / 4096 % 16 + 0xE0)).toNat = v / 4096 % 16 + 0xE0 := byte (by omega)
    have second : (UInt8.ofNat (v / 64 % 64 + 0x80)).toNat = v / 64 % 64 + 0x80 := byte (by omega)
    have sequence := Sequence.three (a := UInt8.ofNat (v / 4096 % 16 + 0xE0)) (by omega) (tail (v / 64))
      (tail v) (by omega) (by omega)
    have code :
        64 * (64 * ((v / 4096 % 16 + 0xE0) % 16) + (v / 64 % 64 + 0x80) % 64) + (v % 64 + 0x80) % 64 = v := by
      omega
    rwa [first, second, byte (by omega), code] at sequence
  · have first : (UInt8.ofNat (v / 262144 % 8 + 0xF0)).toNat = v / 262144 % 8 + 0xF0 := byte (by omega)
    have second : (UInt8.ofNat (v / 4096 % 64 + 0x80)).toNat = v / 4096 % 64 + 0x80 := byte (by omega)
    have third : (UInt8.ofNat (v / 64 % 64 + 0x80)).toNat = v / 64 % 64 + 0x80 := byte (by omega)
    have sequence := Sequence.four (a := UInt8.ofNat (v / 262144 % 8 + 0xF0)) (by omega) (tail (v / 4096))
      (tail (v / 64)) (tail v) (by omega) (by omega)
    have code :
        64 * (64 * (64 * ((v / 262144 % 8 + 0xF0) % 8) + (v / 4096 % 64 + 0x80) % 64) +
          (v / 64 % 64 + 0x80) % 64) + (v % 64 + 0x80) % 64 = v := by
      omega
    rwa [first, second, third, byte (by omega), code] at sequence

/-! ## Starting a sequence -/

/-- The byte may come next. -/
def Pending.Allows (p : Pending) (b : UInt8) : Prop :=
  p.low ≤ b.toNat ∧ b.toNat ≤ p.high

@[simp] theorem Pending.push_missing (p : Pending) (n : Nat) : (p.push n).missing = p.missing - 1 := rfl

@[simp] theorem Pending.push_code (p : Pending) (n : Nat) : (p.push n).code = 64 * p.code + n % 64 := rfl

@[simp] theorem Pending.push_allows (p : Pending) (n : Nat) (b : UInt8) :
    (p.push n).Allows b ↔ IsTail b := Iff.rfl

section

variable {a : UInt8} (start : Nat)

theorem begin?_two (first : 0xC2 ≤ a.toNat ∧ a.toNat ≤ 0xDF) :
    ∃ p, begin? start a = some p ∧ p.missing = 1 ∧ p.code = a.toNat % 32 ∧ ∀ b, p.Allows b ↔ IsTail b := by
  simp only [begin?, if_pos first]
  exact ⟨_, rfl, rfl, rfl, fun b => Iff.rfl⟩

theorem begin?_three (first : 0xE0 ≤ a.toNat ∧ a.toNat ≤ 0xEF) :
    ∃ p, begin? start a = some p ∧ p.missing = 2 ∧ p.code = a.toNat % 16 ∧ ∀ b, p.Allows b ↔
      IsTail b ∧ (a.toNat = 0xE0 → 0xA0 ≤ b.toNat) ∧ (a.toNat = 0xED → b.toNat ≤ 0x9F) := by
  simp only [begin?]
  rw [if_neg (by omega)]
  split
  · exact ⟨_, rfl, rfl, by simp [*], fun b => by simp only [Pending.Allows, IsTail]; omega⟩
  split
  · exact ⟨_, rfl, rfl, by simp [*], fun b => by simp only [Pending.Allows, IsTail]; omega⟩
  · rw [if_pos (by omega)]
    exact ⟨_, rfl, rfl, rfl, fun b => by simp only [Pending.Allows, IsTail]; omega⟩

theorem begin?_four (first : 0xF0 ≤ a.toNat ∧ a.toNat ≤ 0xF4) :
    ∃ p, begin? start a = some p ∧ p.missing = 3 ∧ p.code = a.toNat % 8 ∧ ∀ b, p.Allows b ↔
      IsTail b ∧ (a.toNat = 0xF0 → 0x90 ≤ b.toNat) ∧ (a.toNat = 0xF4 → b.toNat ≤ 0x8F) := by
  simp only [begin?]
  iterate 4 rw [if_neg (by omega)]
  split
  · exact ⟨_, rfl, rfl, by simp [*], fun b => by simp only [Pending.Allows, IsTail]; omega⟩
  split
  · exact ⟨_, rfl, rfl, by simp [*], fun b => by simp only [Pending.Allows, IsTail]; omega⟩
  · rw [if_pos (by omega)]
    exact ⟨_, rfl, rfl, rfl, fun b => by simp only [Pending.Allows, IsTail]; omega⟩

theorem begin?_none (first : a.toNat < 0xC2 ∨ 0xF4 < a.toNat) : begin? start a = none := by
  simp only [begin?]
  iterate 7 rw [if_neg (by omega)]

end

/-! ## Reading a sequence -/

section

variable {offset : Nat} {done chars : List Char} {a b : UInt8} {p : Pending} {rest bytes : List UInt8}

theorem decodeFrom_ascii (ascii : a.toNat < 0x80) :
    decodeFrom offset none done (a :: rest) =
      decodeFrom (offset + 1) none (Char.ofNat a.toNat :: done) rest := by
  rw [decodeFrom, if_pos ascii]

theorem decodeFrom_begin (beyond : 0x80 ≤ a.toNat) (begun : begin? offset a = some p) :
    decodeFrom offset none done (a :: rest) = decodeFrom (offset + 1) (some p) done rest := by
  rw [decodeFrom, if_neg (Nat.not_lt.2 beyond), begun]

theorem decodeFrom_more (allowed : p.Allows b) (several : 1 < p.missing) :
    decodeFrom offset (some p) done (b :: rest) =
      decodeFrom (offset + 1) (some (p.push b.toNat)) done rest := by
  have unfinished : ¬ (p.push b.toNat).missing = 0 := by
    rw [Pending.push_missing]
    omega
  rw [Pending.Allows] at allowed
  rw [decodeFrom, if_pos allowed, if_neg unfinished]

theorem decodeFrom_last (allowed : p.Allows b) (one : p.missing = 1) :
    decodeFrom offset (some p) done (b :: rest) =
      decodeFrom (offset + 1) none (Char.ofNat (64 * p.code + b.toNat % 64) :: done) rest := by
  have finished : (p.push b.toNat).missing = 0 := by rw [Pending.push_missing, one]
  rw [Pending.Allows] at allowed
  rw [decodeFrom, if_pos allowed, if_pos finished, Pending.push_code]

theorem decodeFrom_sequence {code : Nat} (sequence : Sequence bytes code) :
    decodeFrom offset none done (bytes ++ rest) =
      decodeFrom (offset + bytes.length) none (Char.ofNat code :: done) rest := by
  cases sequence with
  | one ascii => exact decodeFrom_ascii ascii
  | @two a b first second =>
      obtain ⟨p, begun, missing, code, allows⟩ := begin?_two offset first
      simp only [List.cons_append, List.nil_append]
      rw [decodeFrom_begin (by omega) begun, decodeFrom_last ((allows b).2 second) missing, code]
      rfl
  | @three a b c first second third notShorter notSurrogate =>
      obtain ⟨p, begun, missing, code, allows⟩ := begin?_three offset first
      have allowed := (allows b).2 ⟨second, notShorter, notSurrogate⟩
      have one : (p.push b.toNat).missing = 1 := by rw [Pending.push_missing, missing]
      simp only [List.cons_append, List.nil_append]
      rw [decodeFrom_begin (by omega) begun, decodeFrom_more allowed (by omega),
        decodeFrom_last ((p.push_allows _ c).2 third) one, Pending.push_code, code]
      rfl
  | @four a b c d first second third fourth notShorter notBeyond =>
      obtain ⟨p, begun, missing, code, allows⟩ := begin?_four offset first
      have allowed := (allows b).2 ⟨second, notShorter, notBeyond⟩
      have two : (p.push b.toNat).missing = 2 := by rw [Pending.push_missing, missing]
      have one : ((p.push b.toNat).push c.toNat).missing = 1 := by rw [Pending.push_missing, two]
      simp only [List.cons_append, List.nil_append]
      rw [decodeFrom_begin (by omega) begun, decodeFrom_more allowed (by omega),
        decodeFrom_more ((p.push_allows _ c).2 third) (by omega),
        decodeFrom_last (((p.push b.toNat).push_allows _ d).2 fourth) one, Pending.push_code,
        Pending.push_code, code]
      rfl

/-! ## What has been read -/

theorem allowed_of_decoded (decoded : decodeFrom offset (some p) done bytes = .ok chars) :
    ∃ b rest, bytes = b :: rest ∧ p.Allows b := by
  cases bytes with
  | nil => cases decoded
  | cons b rest =>
      rw [decodeFrom] at decoded
      split at decoded
      · rename_i allowed
        exact ⟨b, rest, rfl, allowed⟩
      · cases decoded

/-- Decoded bytes start with a sequence: the ranges of the first byte tell how long it is. -/
theorem sequence_of_decoded (decoded : decodeFrom offset none done (a :: bytes) = .ok chars) :
    ∃ sequence rest code, a :: bytes = sequence ++ rest ∧ Sequence sequence code := by
  by_cases ascii : a.toNat < 0x80
  · exact ⟨[a], bytes, _, rfl, .one ascii⟩
  by_cases starts : a.toNat < 0xC2 ∨ 0xF4 < a.toNat
  · rw [decodeFrom, if_neg ascii, begin?_none offset starts] at decoded
    cases decoded
  by_cases two : a.toNat ≤ 0xDF
  · have first : 0xC2 ≤ a.toNat ∧ a.toNat ≤ 0xDF := by omega
    obtain ⟨p, begun, missing, -, allows⟩ := begin?_two offset first
    rw [decodeFrom_begin (by omega) begun] at decoded
    obtain ⟨b, rest, rfl, allowed⟩ := allowed_of_decoded decoded
    exact ⟨[a, b], rest, _, rfl, .two first ((allows b).1 allowed)⟩
  by_cases three : a.toNat ≤ 0xEF
  · have first : 0xE0 ≤ a.toNat ∧ a.toNat ≤ 0xEF := by omega
    obtain ⟨p, begun, missing, -, allows⟩ := begin?_three offset first
    rw [decodeFrom_begin (by omega) begun] at decoded
    obtain ⟨b, rest, rfl, allowed⟩ := allowed_of_decoded decoded
    rw [decodeFrom_more allowed (by omega)] at decoded
    obtain ⟨c, rest, rfl, third⟩ := allowed_of_decoded decoded
    obtain ⟨second, notShorter, notSurrogate⟩ := (allows b).1 allowed
    exact ⟨[a, b, c], rest, _, rfl, .three first second third notShorter notSurrogate⟩
  · have first : 0xF0 ≤ a.toNat ∧ a.toNat ≤ 0xF4 := by omega
    obtain ⟨p, begun, missing, -, allows⟩ := begin?_four offset first
    rw [decodeFrom_begin (by omega) begun] at decoded
    obtain ⟨b, rest, rfl, allowed⟩ := allowed_of_decoded decoded
    rw [decodeFrom_more allowed (by omega)] at decoded
    obtain ⟨c, rest, rfl, third⟩ := allowed_of_decoded decoded
    rw [decodeFrom_more third (by rw [Pending.push_missing]; omega)] at decoded
    obtain ⟨d, rest, rfl, fourth⟩ := allowed_of_decoded decoded
    obtain ⟨second, notShorter, notBeyond⟩ := (allows b).1 allowed
    exact ⟨[a, b, c, d], rest, _, rfl, .four first second third fourth notShorter notBeyond⟩

end

/-! ## Texts -/

theorem decodeFrom_encoded (chars : List Char) (offset : Nat) (done : List Char) :
    decodeFrom offset none done (chars.flatMap String.utf8EncodeChar) = .ok (done.reverse ++ chars) := by
  induction chars generalizing offset done with
  | nil => simp [decodeFrom]
  | cons c chars ih =>
      rw [List.flatMap_cons, decodeFrom_sequence (sequence_encode c), Char.ofNat_toNat, ih]
      simp

/-- By induction on the number of bytes, since a step of the induction takes a whole sequence. -/
theorem encoded_of_decoded {offset : Nat} {done chars : List Char} {bytes : List UInt8}
    (decoded : decodeFrom offset none done bytes = .ok chars) :
    ∃ added : List Char, bytes = added.flatMap String.utf8EncodeChar ∧ chars = done.reverse ++ added := by
  induction counted : bytes.length using Nat.strong_induction_on generalizing offset done bytes with
  | _ size ih =>
    cases bytes with
    | nil =>
        cases decoded
        exact ⟨[], rfl, (List.append_nil _).symm⟩
    | cons a bytes =>
        obtain ⟨first, rest, code, divided, sequence⟩ := sequence_of_decoded decoded
        rw [divided, decodeFrom_sequence sequence] at decoded
        have shorter : rest.length < size := by
          have nonempty : 0 < first.length := by cases sequence <;> simp
          rw [← counted, divided, List.length_append]
          omega
        obtain ⟨added, encoded, decodedTo⟩ := ih rest.length shorter decoded rfl
        refine ⟨Char.ofNat code :: added, ?_, ?_⟩
        · rw [divided, List.flatMap_cons, encode_of_sequence sequence, ← encoded]
        · rw [decodedTo, List.reverse_cons, List.append_assoc, List.singleton_append]

theorem decode_eq_ok_iff {bytes : List UInt8} {text : String} :
    decode bytes = .ok text ↔ bytes = text.toList.flatMap String.utf8EncodeChar := by
  constructor
  · intro decoded
    unfold decode at decoded
    cases read : decodeFrom 0 none [] bytes with
    | error failure =>
        rw [read] at decoded
        cases decoded
    | ok chars =>
        obtain ⟨added, encoded, same⟩ := encoded_of_decoded read
        rw [read] at decoded
        cases decoded
        rw [encoded, same, List.reverse_nil, List.nil_append, String.toList_ofList]
  · rintro rfl
    rw [decode, decodeFrom_encoded]
    simp [Except.map]

end Chip8.Text.Utf8
