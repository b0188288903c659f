import Chip8.Memory

namespace Chip8
namespace Memory

/-!
# Memory as a ring

Positions on the ring are numbers, counted from cell zero and on past the last
cell.  Words that are added to an address wrap later than the ring does, and
4096 divides the number of words, so reading behind an address is reading on
the ring.
-/

/-- The byte at a position, counted round the ring. -/
def ringByte (memory : Memory) (position : Nat) : UInt8 :=
  memory.bytes[position % 4096]

theorem get_add_ofNat (memory : Memory) (address : UInt16) (distance : Nat) :
    memory.get (address + UInt16.ofNat distance) =
      memory.ringByte (address.toNat + distance) := by
  have same : (Address.ofWord (address + UInt16.ofNat distance)).val =
      (address.toNat + distance) % 4096 := by
    simp only [Address.ofWord, UInt16.toNat_add, UInt16.toNat_ofNat']
    omega
  simp only [get, ringByte, Fin.getElem_fin, same]

/-- Reading behind an address goes round the ring. -/
theorem read_eq (memory : Memory) (address : UInt16) (count : Nat) :
    memory.read address count =
      (List.range count).map fun k => memory.ringByte (address.toNat + k) := by
  simp only [read, get_add_ofNat]

theorem get_eq_ringByte (memory : Memory) (address : UInt16) :
    memory.get address = memory.ringByte address.toNat := by
  rfl

theorem ringByte_congr (memory : Memory) {position other : Nat}
    (same : position % 4096 = other % 4096) : memory.ringByte position = memory.ringByte other := by
  simp only [ringByte, same]

theorem ext_ringByte {memory other : Memory}
    (same : ∀ position, memory.ringByte position = other.ringByte position) : memory = other := by
  refine congrArg Memory.mk (Vector.ext fun position inside => ?_)
  simpa only [ringByte, Nat.mod_eq_of_lt inside] using same position

/-! ## Writing -/

/-- Writing bytes leaves alone what lies outside them on the ring.  By induction
on the bytes, each of which is written one cell further on. -/
theorem get_write_of_outside {memory : Memory} {address other : UInt16} {bytes : List UInt8}
    (outside : ∀ k < bytes.length, other.toNat % 4096 ≠ (address.toNat + k) % 4096) :
    (memory.write address bytes).get other = memory.get other := by
  induction bytes generalizing memory address with
  | nil => rfl
  | cons byte rest ih =>
      have first : Address.ofWord address ≠ Address.ofWord other := by
        intro same
        apply outside 0 (Nat.zero_lt_succ _)
        exact (congrArg Fin.val same).symm
      have later : ∀ k < rest.length, other.toNat % 4096 ≠ ((address + 1).toNat + k) % 4096 := by
        intro k inside
        have apart := outside (k + 1) (Nat.succ_lt_succ inside)
        rw [UInt16.toNat_add, UInt16.toNat_one]
        omega
      rw [write, ih later, get_set, if_neg first]

theorem ringByte_write_of_outside {memory : Memory} {address : UInt16} {bytes : List UInt8}
    {position : Nat}
    (outside : ∀ k < bytes.length, position % 4096 ≠ (address.toNat + k) % 4096) :
    (memory.write address bytes).ringByte position = memory.ringByte position := by
  have small : (UInt16.ofNat (position % 4096)).toNat = position % 4096 := by
    rw [UInt16.toNat_ofNat']
    omega
  have cell (memory : Memory) :
      memory.ringByte position = memory.get (UInt16.ofNat (position % 4096)) := by
    rw [get_eq_ringByte, small]
    exact memory.ringByte_congr (Nat.mod_mod _ _).symm
  rw [cell, cell]
  apply get_write_of_outside
  rw [small, Nat.mod_mod]
  exact outside

/-- The bytes that are written follow one another on the ring.  There are no more
of them than cells, so none is written over. -/
theorem ringByte_write {memory : Memory} {address : UInt16} {bytes : List UInt8}
    (fits : bytes.length ≤ 4096) {k : Nat} (inside : k < bytes.length) :
    (memory.write address bytes).ringByte (address.toNat + k) = bytes[k] := by
  induction bytes generalizing memory address k with
  | nil => cases inside
  | cons byte rest ih =>
      rw [List.length_cons] at fits inside
      cases k with
      | zero =>
          have later : ∀ j < rest.length, address.toNat % 4096 ≠ ((address + 1).toNat + j) % 4096 := by
            intro j near
            rw [UInt16.toNat_add, UInt16.toNat_one]
            omega
          rw [Nat.add_zero, ← get_eq_ringByte, write, get_write_of_outside later, get_set, if_pos rfl]
          rfl
      | succ k =>
          have next : (address.toNat + (k + 1)) % 4096 = ((address + 1).toNat + k) % 4096 := by
            rw [UInt16.toNat_add, UInt16.toNat_one]
            omega
          rw [write, ringByte_congr _ next, ih (by omega) (by omega)]
          rfl

/-! ## Programs in memory -/

theorem programStart_toNat : programStart.toNat = 0x200 := by
  decide

theorem exists_load (memory : Memory) {rom : Rom} (fits : rom.size ≤ romLimit) :
    ∃ loaded, memory.load rom = .ok loaded :=
  ⟨_, if_pos fits⟩

theorem size_le_of_load {memory loaded : Memory} {rom : Rom}
    (copied : memory.load rom = .ok loaded) : rom.size ≤ romLimit := by
  by_cases fits : rom.size ≤ romLimit
  · exact fits
  · rw [load, if_neg fits] at copied
    cases copied

/-- A loaded program lies behind the font; the rest of the ring is as before. -/
theorem ringByte_load {memory loaded : Memory} {rom : Rom} (copied : memory.load rom = .ok loaded)
    {position : Nat} (inside : position < 4096) :
    loaded.ringByte position =
      if 0x200 ≤ position ∧ position < 0x200 + rom.size then rom.byte (position - 0x200)
      else memory.ringByte position := by
  unfold load at copied
  split at copied
  · rw [← Except.ok.inj copied]
    simp only [ringByte, Vector.getElem_ofFn, Nat.mod_eq_of_lt inside, programStart_toNat,
      Fin.getElem_fin]
  · cases copied

theorem font_size : font.size = 80 := by
  rfl

theorem ringByte_initial {position : Nat} (inside : position < 4096) :
    initial.ringByte position = font[position]?.getD 0 := by
  simp only [ringByte, initial, Vector.getElem_ofFn, Nat.mod_eq_of_lt inside]

/-- The addresses of a program that fits into memory do not wrap. -/
theorem toNat_opcode_address {rom : Rom} (fits : rom.size ≤ romLimit) {number : Nat}
    (listed : number < rom.opcodeCount) : (rom.opcode number).1.toNat = 0x200 + 2 * number := by
  change (programStart + UInt16.ofNat (2 * number)).toNat = _
  rw [UInt16.toNat_add, UInt16.toNat_ofNat', programStart_toNat]
  unfold Rom.opcodeCount at listed
  unfold romLimit at fits
  omega

/-- In a new memory every opcode of a program is found at its address, also one
whose second byte is missing. -/
theorem word_opcode {loaded : Memory} {rom : Rom} (copied : initial.load rom = .ok loaded)
    {number : Nat} (listed : number < rom.opcodeCount) :
    loaded.word (rom.opcode number).1 = (rom.opcode number).2 := by
  have fits : rom.size ≤ 0xDFF := size_le_of_load copied
  have inside : 2 * number + 1 ≤ rom.size := by
    unfold Rom.opcodeCount at listed
    omega
  have position := toNat_opcode_address fits listed
  have high : loaded.get (rom.opcode number).1 = rom.byte (2 * number) := by
    rw [get_eq_ringByte, position, ringByte_load copied (by omega), if_pos (by omega),
      Nat.add_sub_cancel_left]
  have low : loaded.get ((rom.opcode number).1 + 1) = rom.byte (2 * number + 1) := by
    change loaded.get ((rom.opcode number).1 + UInt16.ofNat 1) = _
    rw [get_add_ofNat, position, Nat.add_assoc, ringByte_load copied (by omega),
      Nat.add_sub_cancel_left]
    split
    · rfl
    · have beyond : rom.bytes.size ≤ 2 * number + 1 := by
        change rom.size ≤ _
        omega
      have blank : font.size ≤ 0x200 + (2 * number + 1) := by
        rw [font_size]
        omega
      rw [ringByte_initial (by omega), Array.getElem?_eq_none blank, Rom.byte,
        Array.getElem?_eq_none beyond]
  rw [word, high, low]
  rfl

end Memory
end Chip8
