/-!
# Memory

4096 bytes. Addresses wrap around, so that every integer stands for one.
-/

namespace Chip8

abbrev Address := Fin 4096

namespace Address

/-- The low twelve bits of `i`. -/
def ofInt (i : Int) : Address :=
  ⟨(i % 4096).toNat, by omega⟩

theorem val_ofInt (i : Int) : (ofInt i : Nat) = (i % 4096).toNat := rfl

theorem ofInt_eq {i : Int} (a : Address) (value : i % 4096 = (a.val : Int)) : ofInt i = a :=
  Fin.ext (by rw [val_ofInt, value]; rfl)

theorem ofInt_eq_ofInt_iff {i j : Int} : ofInt i = ofInt j ↔ i % 4096 = j % 4096 := by
  rw [Fin.ext_iff, val_ofInt, val_ofInt]
  omega

end Address

/-- The address that `i` stands for, as an integer. -/
def wrap (i : Int) : Int :=
  i % 4096

structure Memory where
  cells : Vector UInt8 4096
  deriving DecidableEq

namespace Memory

def zero : Memory :=
  ⟨.replicate 4096 0⟩

def read (m : Memory) (address : Int) : UInt8 :=
  m.cells[Address.ofInt address]

def write (m : Memory) (address : Int) (b : UInt8) : Memory :=
  ⟨m.cells.set (Address.ofInt address) b⟩

/-- Writes the bytes one after another from `address` on. -/
def store (m : Memory) (address : Int) : List UInt8 → Memory
  | [] => m
  | b :: rest => (m.write address b).store (address + 1) rest

def block (m : Memory) (address : Int) (count : Nat) : List UInt8 :=
  (List.range count).map fun (i : Nat) => m.read (address + i)

theorem read_wrap (m : Memory) (address : Int) : m.read (wrap address) = m.read address := by
  have same : Address.ofInt (wrap address) = Address.ofInt address :=
    Address.ofInt_eq_ofInt_iff.2 (Int.emod_emod_of_dvd _ (Int.dvd_refl _))
  simp only [read, same]

theorem read_write (m : Memory) (a c : Int) (b : UInt8) :
    (m.write a b).read c = if a % 4096 = c % 4096 then b else m.read c := by
  simp [read, write, Vector.getElem_set, ← Fin.ext_iff, Address.ofInt_eq_ofInt_iff]

/-- How far `address` lies behind `start`, going up and around. -/
def offset (start address : Int) : Nat :=
  ((address - start) % 4096).toNat

theorem read_store (m : Memory) (start address : Int) (bytes : List UInt8)
    (fits : bytes.length ≤ 4096) :
    (m.store start bytes).read address = bytes[offset start address]?.getD (m.read address) := by
  induction bytes generalizing m start with
  | nil => simp [store]
  | cons b rest ih =>
      simp only [List.length_cons] at fits
      rw [store, ih _ _ (by omega), read_write]
      by_cases here : start % 4096 = address % 4096
      · have first : offset start address = 0 := by unfold offset; omega
        have beyond : rest.length ≤ offset (start + 1) address := by unfold offset; omega
        simp [here, first, List.getElem?_eq_none beyond]
      · have later : offset start address = offset (start + 1) address + 1 := by unfold offset; omega
        simp [here, later]

end Memory

end Chip8
