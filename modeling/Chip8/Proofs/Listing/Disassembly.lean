import Chip8.Proofs.Hex.FixedWidth
import Chip8.Proofs.Listing.Writing
import Chip8.Proofs.Machine.Planning
import Chip8.Proofs.Memory.Ring

namespace Chip8

/-!
# The disassembly and the machine

The disassembly cuts a program file into opcodes; the machine copies the file
into memory and fetches from there.  Both see the same opcode at each address
of a program that fits into memory, also behind its last byte when that byte is
alone.

A line ends in a mnemonic exactly if the machine can decode the opcode, since no
mnemonic reads like a number.
-/

/-! ## Mnemonics and numbers -/

namespace Instruction

open Listing

theorem isPlain_mnemonic (instruction : Instruction) : IsPlain instruction.mnemonic := by
  have height (n : Fin 16) : IsPlain (toString n.val) := by decide +revert
  cases instruction <;>
    simp +decide only [mnemonic, unary, binary, addressText, byteText, registerText,
      isPlain_append, isPlain_upper, height, and_true]

/-- Every mnemonic has a character that no number has. -/
theorem exists_mem_mnemonic (instruction : Instruction) :
    ∃ c ∈ instruction.mnemonic.toList, c ∉ Hex.capitals := by
  have blank : ' ' ∉ Hex.capitals := by decide
  cases instruction with
  | clearScreen => exact ⟨'L', by decide, by decide⟩
  | ret => exact ⟨'R', by decide, by decide⟩
  | _ =>
      refine ⟨' ', ?_, blank⟩
      simp [mnemonic, unary, binary]

theorem mnemonic_ne_upper (instruction : Instruction) (width number : Nat) :
    instruction.mnemonic ≠ Hex.upper width number := by
  intro equal
  rcases exists_mem_mnemonic instruction with ⟨c, member, other⟩
  rw [equal] at member
  exact other (Hex.mem_capitals_of_mem_upper member)

end Instruction

namespace Opcode

/-! ## The bytes of an opcode -/

theorem high_ofBytes (high low : UInt8) : (ofBytes high low).high = high := by
  have byte := high.toNat_lt
  have rest := low.toNat_lt
  apply UInt8.toNat_inj.mp
  simp only [Opcode.high, ofBytes, UInt8.toNat_ofNat', UInt16.toNat_ofNat']
  omega

theorem low_ofBytes (high low : UInt8) : (ofBytes high low).low = low := by
  have byte := high.toNat_lt
  have rest := low.toNat_lt
  apply UInt8.toNat_inj.mp
  simp only [Opcode.low, ofBytes, UInt8.toNat_ofNat', UInt16.toNat_ofNat']
  omega

end Opcode

namespace Machine

/-! ## Looking at an address of a program -/

theorem load_goTo_run {rom : Rom} {memory : Memory} (copied : Memory.initial.load rom = .ok memory)
    {address : UInt16} (start : IsStart address) (machine : Machine) :
    (do load rom; goTo address : Action Unit) machine =
      .ok () { initial with memory, pc := address, drawn := machine.drawn } := by
  rw [bind_run, load_run, copied]
  change goTo address { initial with memory, drawn := machine.drawn } = _
  rw [goTo_run, checkStart_of_isStart start]

section Fetched

variable {machine : Machine} {opcode : Opcode}

/-- An opcode that is fetched is decoded. -/
theorem fetchDecode_eq (fetched : machine.fetch = .ok opcode) :
    machine.fetchDecode = (Instruction.decode opcode).map (opcode, ·) := by
  unfold fetchDecode
  rw [fetched]
  change (do return (opcode, ← Instruction.decode opcode)) = _
  cases Instruction.decode opcode <;> rfl

theorem fetchDecode_eq_ok_iff (fetched : machine.fetch = .ok opcode) {instruction : Instruction} :
    machine.fetchDecode = .ok (opcode, instruction) ↔
      Instruction.decode opcode = .ok instruction := by
  rw [fetchDecode_eq fetched]
  cases Instruction.decode opcode <;> simp [Except.map]

theorem fetchDecode_eq_error_iff (fetched : machine.fetch = .ok opcode) {failure : Error} :
    machine.fetchDecode = .error failure ↔ Instruction.decode opcode = .error failure := by
  rw [fetchDecode_eq fetched]
  cases Instruction.decode opcode <;> simp [Except.map]

end Fetched

end Machine

namespace Listing

/-! ## Lines -/

theorem isPlain_meaning (opcode : Opcode) : IsPlain (meaning opcode) := by
  unfold meaning
  split
  · exact Instruction.isPlain_mnemonic _
  · exact isPlain_upper 4 opcode.toNat

theorem isPlain_opcodeLine (address : UInt16) (opcode : Opcode) :
    IsPlain (opcodeLine address opcode) := by
  simp +decide only [opcodeLine, isPlain_append, isPlain_upper, isPlain_meaning,
    and_true]

theorem meaning_of_decode {opcode : Opcode} {instruction : Instruction}
    (decoded : Instruction.decode opcode = .ok instruction) :
    meaning opcode = instruction.mnemonic := by
  rw [meaning, decoded]

/-- Only an opcode that is unknown is listed as a number. -/
theorem meaning_eq_upper_iff (opcode : Opcode) :
    meaning opcode = Hex.upper 4 opcode.toNat ↔
      Instruction.decode opcode = .error (.unknownOpcode opcode) := by
  unfold meaning Instruction.decode
  cases Instruction.ofOpcode? opcode with
  | none => exact ⟨fun _ => rfl, fun _ => rfl⟩
  | some instruction =>
      refine ⟨fun number => ?_, fun unknown => by cases unknown⟩
      exact absurd number (instruction.mnemonic_ne_upper 4 opcode.toNat)

/-- The line of an address, with the bytes that lie there in memory. -/
def memoryLine (memory : Memory) (address : UInt16) (text : String) : String :=
  Hex.fixedUpper 3 address.toNat ++ "  " ++ Hex.fixedUpper 2 (memory.get address).toNat ++ " " ++
    Hex.fixedUpper 2 (memory.get (address + 1)).toNat ++ "  " ++ text

theorem opcodeLine_eq_memoryLine {memory : Memory} {address : UInt16} {opcode : Opcode}
    (inside : address.toNat < 0x1000) (word : memory.word address = opcode) :
    opcodeLine address opcode = memoryLine memory address (meaning opcode) := by
  have byte (byte : UInt8) : Hex.upper 2 byte.toNat = Hex.fixedUpper 2 byte.toNat :=
    Hex.upper_eq_fixedUpper (by decide) byte.toNat_lt
  have place : Hex.upper 3 address.toNat = Hex.fixedUpper 3 address.toNat :=
    Hex.upper_eq_fixedUpper (by decide) inside
  have high : opcode.high = memory.get address := by rw [← word]; exact Opcode.high_ofBytes _ _
  have low : opcode.low = memory.get (address + 1) := by rw [← word]; exact Opcode.low_ofBytes _ _
  rw [opcodeLine, memoryLine, place, byte, byte, high, low]

/-- The lines that are written for a ROM are the lines of its opcodes. -/
theorem linesOf_disassembly (rom : Rom) : ∃ written : Array UInt8,
    write (disassemblyPieces rom) Writer.unbounded = .ok () ⟨none, written⟩ ∧
      linesOf written = (disassembly rom).map asciiBytes ++ [[]] := by
  refine linesOf_write ?_
  intro line member
  rcases List.mem_map.mp member with ⟨⟨address, opcode⟩, _, rfl⟩
  exact isPlain_opcodeLine address opcode

theorem opcodes_getElem? {rom : Rom} {number : Nat} (listed : number < rom.opcodeCount) :
    rom.opcodes[number]? = some (rom.opcode number) := by
  rw [Rom.opcodes, List.getElem?_map, List.getElem?_range listed]
  rfl

theorem disassembly_getElem? {rom : Rom} {number : Nat} (listed : number < rom.opcodeCount) :
    (disassembly rom)[number]? =
      some (opcodeLine (rom.opcode number).1 (rom.opcode number).2) := by
  rw [disassembly, List.getElem?_map, opcodes_getElem? listed]
  rfl

/-! ## The disassembly of a program that fits into memory -/

/-- The machine reads a program as the disassembly lists it.  At the address of
each opcode the machine can go on, and it fetches that opcode, even if its second
byte is missing in the file.  The line written for it has the address, the two
bytes found in memory, and the mnemonic of the instruction that the machine
decodes, or the opcode as a number exactly if the machine does not know it. -/
theorem disassembly_lists_what_is_fetched {rom : Rom} (fits : rom.size ≤ 0xDFF) {number : Nat}
    (listed : number < (rom.size + 1) / 2) :
    ∃ (address : UInt16) (opcode : Opcode) (placed : Machine) (written : Array UInt8)
        (text : String),
      rom.opcodes[number]? = some (address, opcode) ∧
      address.toNat = 0x200 + 2 * number ∧
      (do Machine.load rom; Machine.goTo address : Action Unit) Machine.initial = .ok () placed ∧
      placed.fetch = .ok opcode ∧
      write (disassemblyPieces rom) Writer.unbounded = .ok () ⟨none, written⟩ ∧
      (linesOf written)[number]? = some (asciiBytes (memoryLine placed.memory address text)) ∧
      (∀ instruction, placed.fetchDecode = .ok (opcode, instruction) →
        text = instruction.mnemonic) ∧
      (text = Hex.fixedUpper 4 opcode.toNat ↔
        placed.fetchDecode = .error (.unknownOpcode opcode)) := by
  let address := (rom.opcode number).1
  let opcode := (rom.opcode number).2
  have found : rom.opcodes[number]? = some (address, opcode) := opcodes_getElem? listed
  have position : address.toNat = 0x200 + 2 * number := Memory.toNat_opcode_address fits listed
  have start : Machine.IsStart address := ⟨by omega, by omega⟩
  rcases Memory.initial.exists_load fits with ⟨memory, copied⟩
  have word : memory.word address = opcode := Memory.word_opcode copied listed
  let placed : Machine :=
    { Machine.initial with memory, pc := address, drawn := Machine.initial.drawn }
  have fetched : placed.fetch = .ok opcode := by
    rw [Machine.fetch_of_isStart start]
    exact congrArg Except.ok word
  rcases linesOf_disassembly rom with ⟨written, wrote, lines⟩
  have line : (linesOf written)[number]? =
      some (asciiBytes (memoryLine placed.memory address (meaning opcode))) := by
    have listing := disassembly_getElem? listed
    rw [opcodeLine_eq_memoryLine (by omega) word] at listing
    rw [lines, getElem?_of_lines listing]
  refine ⟨address, opcode, placed, written, meaning opcode, found, position,
    Machine.load_goTo_run copied start Machine.initial, fetched, wrote, line, ?_, ?_⟩
  · intro instruction instructed
    exact meaning_of_decode ((Machine.fetchDecode_eq_ok_iff fetched).mp instructed)
  · rw [← Hex.upper_eq_fixedUpper (by decide) opcode.toNat_lt, meaning_eq_upper_iff,
      Machine.fetchDecode_eq_error_iff fetched]

/-- The largest program ends in the last cell but one, with half an opcode. -/
theorem largest_program_ends_in_a_zero : ∃ (rom : Rom) (placed : Machine) (written : Array UInt8),
    rom.size = 0xDFF ∧
      (do Machine.load rom; Machine.goTo 0xFFE : Action Unit) Machine.initial = .ok () placed ∧
      placed.fetch = .ok 0xAB00 ∧
      write (disassemblyPieces rom) Writer.unbounded = .ok () ⟨none, written⟩ ∧
      (linesOf written)[0x6FF]? = some (asciiBytes "FFE  AB 00  LD I, 0xB00") := by
  let rom : Rom := ⟨Array.replicate 0xDFF 0xAB⟩
  have size : rom.size = 0xDFF := Array.size_replicate
  have fits : rom.size ≤ 0xDFF := Nat.le_of_eq size
  have listed : 0x6FF < (rom.size + 1) / 2 := by rw [size]; decide
  rcases disassembly_lists_what_is_fetched fits listed with
    ⟨address, opcode, placed, written, text, found, position, went, fetched, wrote, line, known, _⟩
  have place : address = 0xFFE := UInt16.toNat_inj.mp position
  have value : opcode = 0xAB00 := by
    have high : rom.byte 0xDFE = 0xAB := by simp [rom, Rom.byte]
    have low : rom.byte 0xDFF = 0 := by simp [rom, Rom.byte]
    rw [opcodes_getElem? listed, Rom.opcode, high, low] at found
    cases found
    decide
  subst place value
  have decoded : Instruction.decode 0xAB00 = .ok (.setIndex 0xB00) := rfl
  have named : text = "LD I, 0xB00" := by
    have digits : Hex.upper 3 0xB00 = "B00" := by
      rw [Hex.upper_eq_fixedUpper (by decide) (by decide)]
      decide
    rw [known _ ((Machine.fetchDecode_eq_ok_iff fetched).mpr decoded)]
    change "LD" ++ " " ++ "I" ++ ", " ++ ("0x" ++ Hex.upper 3 0xB00) = _
    rw [digits]
    decide
  rcases Memory.initial.exists_load fits with ⟨memory, copied⟩
  have start : Machine.IsStart 0xFFE := by decide
  cases went.symm.trans (Machine.load_goTo_run copied start Machine.initial)
  have word : memory.word 0xFFE = 0xAB00 := by
    rw [Machine.fetch_of_isStart start] at fetched
    exact Except.ok.inj fetched
  have high : memory.get 0xFFE = 0xAB :=
    (Opcode.high_ofBytes _ _).symm.trans (congrArg Opcode.high word)
  have low : memory.get (0xFFE + 1) = 0x00 :=
    (Opcode.low_ofBytes _ _).symm.trans (congrArg Opcode.low word)
  have shown : memoryLine memory 0xFFE text = "FFE  AB 00  LD I, 0xB00" := by
    rw [memoryLine, high, low, named]
    decide
  refine ⟨rom, _, written, size, went, fetched, wrote, ?_⟩
  rw [← shown]
  exact line

end Listing
end Chip8
