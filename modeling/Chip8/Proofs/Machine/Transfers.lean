import Chip8.Proofs.Machine.Footprint

namespace Chip8
namespace Machine

/-!
# Transfers between registers and memory

Three instructions move bytes between the registers and the cells from the index
register on: one stores V0 to Vx, one loads them, and one stores the decimal
digits of Vx.  Cells are counted round the ring, so a transfer may begin anywhere
and go on behind the last cell with the first.  A transfer is much shorter than
the ring and meets no cell twice, which makes storing and loading inverse to each
other.
-/

variable {noise : Noise} {op : Opcode} {instruction : Instruction} {x : Reg}
  {machine before between after : Machine}

/-! ## Carrying out the instruction of an opcode -/

/-- The instruction of an opcode is carried out, on its own or in a step of a
machine that does not wait for a key. -/
inductive CarriesOut (noise : Noise) (op : Opcode) (before after : Machine) : Prop
  | alone {instruction : Instruction} (decoded : Instruction.decode op = .ok instruction)
      (executed : execute noise instruction before = .ok () after)
  | stepped (active : before.awaiting = none) (word : before.memory.word before.pc = op)
      (stepped : step noise before = .ok () after)

/-- A step moves the program counter and the history besides. -/
theorem CarriesOut.eq_effect (carried : CarriesOut noise op before after)
    (decoded : Instruction.decode op = .ok instruction) :
    ∃ pc recent, after = { effect noise instruction before with pc, recent } := by
  cases carried with
  | alone other executed =>
      cases decoded.symm.trans other
      refine ⟨after.pc, after.recent, ?_⟩
      rw [effect, executed]
      rfl
  | stepped active word stepped =>
      rw [← word] at decoded
      rcases complete_of_step active decoded stepped with ⟨plan, -, rfl, rfl⟩
      exact ⟨_, _, rfl⟩

/-- The instruction of an opcode never fails, and this is what it does. -/
def Always (noise : Noise) (op : Opcode) (does : Machine → Machine → Prop) : Prop :=
  ∀ before, (∃ after, CarriesOut noise op before after) ∧
    ∀ after, CarriesOut noise op before after → does before after

theorem decode_of_stores (first : op.identifier = 0xF) (last : op.kk = 0x55) :
    Instruction.decode op = .ok (.storeRegisters op.x) := by
  simp only [Instruction.decode, Instruction.ofOpcode?, first, last]

theorem decode_of_loads (first : op.identifier = 0xF) (last : op.kk = 0x65) :
    Instruction.decode op = .ok (.loadRegisters op.x) := by
  simp only [Instruction.decode, Instruction.ofOpcode?, first, last]

theorem decode_of_storesDecimal (first : op.identifier = 0xF) (last : op.kk = 0x33) :
    Instruction.decode op = .ok (.storeDecimal op.x) := by
  simp only [Instruction.decode, Instruction.ofOpcode?, first, last]

/-! ## Storing -/

/-- Memory is the same but for some cells from the index register on. -/
def SameBeyond (count : Nat) (before after : Machine) : Prop :=
  ∀ position, (∀ k < count, position % 4096 ≠ (before.index.toNat + k) % 4096) →
    after.memory.ringByte position = before.memory.ringByte position

/-- Bytes were written from the index register on, and neither the index register
nor the others have changed. -/
structure Writes (bytes : List UInt8) (before after : Machine) : Prop where
  written : ∀ k (inside : k < bytes.length),
    after.memory.ringByte (before.index.toNat + k) = bytes[k]
  beyond : SameBeyond bytes.length before after
  index : after.index = before.index
  registers : after.registers = before.registers

theorem CarriesOut.writes {bytes : List UInt8} (carried : CarriesOut noise op before after)
    (decoded : Instruction.decode op = .ok instruction)
    (writes : effect noise instruction before =
      { before with memory := before.memory.write before.index bytes })
    (fits : bytes.length ≤ 4096) : Writes bytes before after := by
  rcases carried.eq_effect decoded with ⟨pc, recent, rfl⟩
  rw [writes]
  exact
    { written := fun k inside => Memory.ringByte_write fits inside
      beyond := fun position outside => Memory.ringByte_write_of_outside outside
      index := rfl
      registers := rfl }

/-- V0 to Vx lie in memory from the index register on, and nothing else of the
memory and the registers has changed. -/
structure StoresRegisters (x : Reg) (before after : Machine) : Prop where
  stored : ∀ k : Reg, k ≤ x →
    after.memory.ringByte (before.index.toNat + k) = before.registers.get k
  beyond : SameBeyond (x + 1) before after
  index : after.index = before.index
  registers : after.registers = before.registers

/-- The three decimal digits of Vx lie in memory from the index register on, and
nothing else of the memory and the registers has changed. -/
structure StoresDecimal (x : Reg) (before after : Machine) : Prop where
  digits : ∃ hundreds tens ones : Nat, hundreds ≤ 9 ∧ tens ≤ 9 ∧ ones ≤ 9 ∧
    100 * hundreds + 10 * tens + ones = (before.registers.get x).toNat ∧
    (after.memory.ringByte before.index.toNat).toNat = hundreds ∧
    (after.memory.ringByte (before.index.toNat + 1)).toNat = tens ∧
    (after.memory.ringByte (before.index.toNat + 2)).toNat = ones
  beyond : SameBeyond 3 before after
  index : after.index = before.index
  registers : after.registers = before.registers

theorem getElem_map_upTo {α : Type} (x k : Reg) (value : Reg → α)
    (inside : k.val < (x.upTo.map value).length) : (x.upTo.map value)[k.val] = value k := by
  simp [Reg.upTo]

theorem storesRegisters_of_carriesOut (first : op.identifier = 0xF) (last : op.kk = 0x55)
    (carried : CarriesOut noise op before after) : StoresRegisters op.x before after := by
  have length : ((Reg.upTo op.x).map before.registers.get).length = op.x + 1 := by
    rw [List.length_map, length_upTo]
  have writes : Writes ((Reg.upTo op.x).map before.registers.get) before after :=
    carried.writes (decode_of_stores first last) rfl (by omega)
  refine { stored := ?_, beyond := length ▸ writes.beyond, index := writes.index,
           registers := writes.registers }
  intro k low
  have inside : k.val < ((Reg.upTo op.x).map before.registers.get).length := by
    rw [length]
    exact Nat.lt_succ_of_le low
  rw [writes.written k inside, getElem_map_upTo]

theorem storesDecimal_of_carriesOut (first : op.identifier = 0xF) (last : op.kk = 0x33)
    (carried : CarriesOut noise op before after) : StoresDecimal op.x before after := by
  have three (value : UInt8) : (decimalDigits value).length = 3 := rfl
  generalize value_eq : before.registers.get op.x = value
  have writes : Writes (decimalDigits value) before after :=
    carried.writes (decode_of_storesDecimal first last) (by rw [← value_eq]; rfl)
      (by rw [three]; decide)
  have bound := value.toNat_lt
  have digit {k : Nat} (inside : k < 3) := congrArg UInt8.toNat (writes.written k inside)
  refine { digits := ⟨value.toNat / 100, value.toNat / 10 % 10, value.toNat % 10, by omega, by omega,
             by omega, by rw [value_eq]; omega, ?_, ?_, ?_⟩
           beyond := writes.beyond, index := writes.index, registers := writes.registers }
  · exact digit (k := 0) (by decide)
  · exact digit (k := 1) (by decide)
  · exact digit (k := 2) (by decide)

/-! ## Loading -/

/-- V0 to Vx are the bytes from the index register on, and nothing else of the
registers and the memory has changed. -/
structure LoadsRegisters (x : Reg) (before after : Machine) : Prop where
  loaded : ∀ k : Reg, k ≤ x →
    after.registers.get k = before.memory.ringByte (before.index.toNat + k)
  others : ∀ k : Reg, x < k → after.registers.get k = before.registers.get k
  index : after.index = before.index
  memory : after.memory = before.memory

theorem get_foldl_set_of_mem {targets : List Reg} {r : Reg} (member : r ∈ targets)
    (value : Reg → UInt8) (registers : Registers) :
    (targets.foldl (fun file k => file.set k (value k)) registers).get r = value r := by
  induction targets generalizing registers with
  | nil => cases member
  | cons target rest ih =>
      by_cases later : r ∈ rest
      · exact ih later _
      · rcases List.mem_cons.mp member with rfl | other
        · rw [List.foldl_cons, get_foldl_set_of_not_mem later, Registers.get_set, if_pos rfl]
        · exact absurd other later

theorem loadsRegisters_of_carriesOut (first : op.identifier = 0xF) (last : op.kk = 0x65)
    (carried : CarriesOut noise op before after) : LoadsRegisters op.x before after := by
  rcases carried.eq_effect (decode_of_loads first last) with ⟨pc, recent, rfl⟩
  refine { loaded := ?_, others := ?_, index := rfl, memory := rfl }
  · intro k low
    rw [← Memory.get_add_ofNat]
    exact get_foldl_set_of_mem ((mem_upTo_iff k op.x).mpr low) _ _
  · intro k high
    have outside : k ∉ Reg.upTo op.x := fun member =>
      absurd high (Fin.not_lt.mpr ((mem_upTo_iff k op.x).mp member))
    exact get_foldl_set_of_not_mem outside _ _

/-! ## Round trips -/

/-- What was stored is loaded again, whatever was done to the registers. -/
theorem LoadsRegisters.of_stored (stores : StoresRegisters x machine before)
    (memory : between.memory = before.memory) (index : between.index = machine.index)
    (loads : LoadsRegisters x between after) :
    ∀ k : Reg, k ≤ x → after.registers.get k = machine.registers.get k := by
  intro k low
  rw [loads.loaded k low, memory, index, stores.stored k low]

/-- What was loaded is in memory already. -/
theorem StoresRegisters.of_loaded (loads : LoadsRegisters x machine before)
    (memory : between.memory = before.memory) (index : between.index = machine.index)
    (registers : ∀ k : Reg, k ≤ x → between.registers.get k = before.registers.get k)
    (stores : StoresRegisters x between after) : after.memory = machine.memory := by
  rw [loads.memory] at memory
  apply Memory.ext_ringByte
  intro position
  by_cases written : ∃ k < x.val + 1, position % 4096 = (between.index.toNat + k) % 4096
  · rcases written with ⟨k, low, same⟩
    have small : k < 16 := by omega
    have kept := stores.stored ⟨k, small⟩ (Nat.le_of_lt_succ low)
    rw [registers _ (Nat.le_of_lt_succ low), loads.loaded _ (Nat.le_of_lt_succ low)] at kept
    rw [index] at same kept
    rw [after.memory.ringByte_congr same, machine.memory.ringByte_congr same]
    exact kept
  · rw [stores.beyond position fun k low same => written ⟨k, low, same⟩, memory]

/-! ## All transfers -/

/-- **Transfers go round the ring and undo each other.** In every state, storing and
loading V0 to Vx and storing the digits of Vx succeed and touch only the registers
or cells that they are meant for, counted round the ring from the index register on.
What was stored is loaded again after any change of the registers, and storing what
was loaded leaves memory as it was.  Bytes are read in the same way, from any address
and in any number. -/
theorem transfers_go_round_the_ring (noise : Noise) :
    (∀ op : Opcode, op.identifier = 0xF →
      (op.kk = 0x55 → Always noise op (StoresRegisters op.x)) ∧
      (op.kk = 0x65 → Always noise op (LoadsRegisters op.x)) ∧
      (op.kk = 0x33 → Always noise op (StoresDecimal op.x))) ∧
    (∀ store load : Opcode, store.identifier = 0xF → store.kk = 0x55 →
      load.identifier = 0xF → load.kk = 0x65 → load.x = store.x →
      (∀ machine stored changed restored : Machine, CarriesOut noise store machine stored →
        changed.memory = stored.memory → changed.index = stored.index →
        CarriesOut noise load changed restored →
        ∀ k : Reg, k ≤ store.x → restored.registers.get k = machine.registers.get k) ∧
      ∀ machine loaded kept stored : Machine, CarriesOut noise load machine loaded →
        kept.memory = loaded.memory → kept.index = loaded.index →
        (∀ k : Reg, k ≤ store.x → kept.registers.get k = loaded.registers.get k) →
        CarriesOut noise store kept stored → stored.memory = machine.memory) ∧
    ∀ (memory : Memory) (address : UInt16) (count : Nat),
      (memory.read address count).length = count ∧
      ∀ k < count, (memory.read address count)[k]? = some (memory.ringByte (address.toNat + k)) := by
  refine ⟨?_, ?_, ?_⟩
  · intro op first
    refine ⟨fun last before => ⟨⟨_, .alone (decode_of_stores first last) rfl⟩, ?_⟩,
      fun last before => ⟨⟨_, .alone (decode_of_loads first last) rfl⟩, ?_⟩,
      fun last before => ⟨⟨_, .alone (decode_of_storesDecimal first last) rfl⟩, ?_⟩⟩
    · exact fun after => storesRegisters_of_carriesOut first last
    · exact fun after => loadsRegisters_of_carriesOut first last
    · exact fun after => storesDecimal_of_carriesOut first last
  · intro store load isStore stores isLoad loads same
    constructor
    · intro machine stored changed restored storing memory index loading
      have kept := storesRegisters_of_carriesOut isStore stores storing
      have got := loadsRegisters_of_carriesOut isLoad loads loading
      rw [same] at got
      exact got.of_stored kept memory (index.trans kept.index)
    · intro machine loaded kept stored loading memory index registers storing
      have got := loadsRegisters_of_carriesOut isLoad loads loading
      have put := storesRegisters_of_carriesOut isStore stores storing
      rw [same] at got
      exact put.of_loaded got memory (index.trans got.index) registers
  · intro memory address count
    rw [Memory.read_eq]
    refine ⟨by rw [List.length_map, List.length_range], fun k inside => ?_⟩
    rw [List.getElem?_map, List.getElem?_range inside]
    rfl

/-- Two registers are stored across the end of the ring and the end of the sixteen-bit
words, and are loaded again after they were cleared. -/
theorem pair_returns_across_the_end :
    ∃ machine stored restored : Machine, machine.index = 0xFFFF ∧
      machine.registers.get 0 = 7 ∧ machine.registers.get 1 = 9 ∧
      CarriesOut (fun _ => 0) 0xF155 machine stored ∧
      stored.memory.get 0xFFF = 7 ∧ stored.memory.get 0 = 9 ∧
      CarriesOut (fun _ => 0) 0xF165 { stored with registers := Registers.initial } restored ∧
      restored.registers.get 0 = 7 ∧ restored.registers.get 1 = 9 := by
  let machine : Machine :=
    { initial with index := 0xFFFF, registers := (Registers.initial.set 0 7).set 1 9 }
  have transfers := transfers_go_round_the_ring fun _ => 0
  have stores := (transfers.1 0xF155 (by decide)).1 (by decide)
  have loads := (transfers.1 0xF165 (by decide)).2.1 (by decide)
  rcases (stores machine).1 with ⟨stored, storing⟩
  rcases (loads { stored with registers := Registers.initial }).1 with ⟨restored, loading⟩
  have written := ((stores machine).2 stored storing).stored
  have returned := (transfers.2.1 0xF155 0xF165 (by decide) (by decide) (by decide) (by decide)
    (by decide)).1 machine stored { stored with registers := Registers.initial } restored storing
    rfl rfl loading
  have last : stored.memory.get 0xFFF = 7 := by
    have same : 0xFFF % 4096 = (0xFFFF + 0) % 4096 := by decide
    exact (stored.memory.ringByte_congr same).trans (written 0 (by decide))
  have first : stored.memory.get 0 = 9 := by
    have same : 0 % 4096 = (0xFFFF + 1) % 4096 := by decide
    exact (stored.memory.ringByte_congr same).trans (written 1 (by decide))
  exact ⟨machine, stored, restored, rfl, rfl, rfl, storing, last, first, loading,
    returned 0 (by decide), returned 1 (by decide)⟩

end Machine
end Chip8
