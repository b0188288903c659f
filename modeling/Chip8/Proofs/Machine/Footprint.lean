import Chip8.Proofs.Machine.ControlFlow
import Chip8.Proofs.Memory.Ring

namespace Chip8

/-!
# What a step leaves alone

An instruction changes few components of the machine.  Which ones can be told
from the digits of its opcode and, for the instruction that awaits a key, from
whether a key is down.  Everything else is the same after the step as before it,
apart from the program counter and the history, which move with every step.

Block transfers are the only instructions that write to memory, and they leave
the index register where it is.
-/

namespace Opcode

/-- The registers that the instruction of an opcode may change. -/
def ChangesRegister (op : Opcode) (keypad : Keypad) (r : Reg) : Prop :=
  match op.identifier with
  | 0x6 | 0x7 | 0xC => r = op.x
  | 0x8 => r = op.x ∨ (0x3 < op.n ∧ r = 0xF)
  | 0xD => r = 0xF
  | 0xF =>
      ((op.kk = 0x07 ∨ (op.kk = 0x0A ∧ keypad.AnyDown)) ∧ r = op.x) ∨ (op.kk = 0x65 ∧ r ≤ op.x)
  | _ => False

/-- The number of cells, from the index register on, that the instruction of an
opcode may change. -/
def cellsChanged (op : Opcode) : Nat :=
  if op.identifier = 0xF ∧ op.kk = 0x33 then 3
  else if op.identifier = 0xF ∧ op.kk = 0x55 then op.x + 1
  else 0

end Opcode

namespace Machine

/-- The second machine differs from the first, apart from the program counter and
the history, only where the instruction of an opcode may change it. -/
structure Footprint (op : Opcode) (before after : Machine) : Prop where
  registers : ∀ r, ¬ op.ChangesRegister before.keypad r →
    after.registers.get r = before.registers.get r := by intros; rfl
  memory : ∀ address : UInt16,
    (∀ k < op.cellsChanged, address.toNat % 4096 ≠ (before.index.toNat + k) % 4096) →
      after.memory.get address = before.memory.get address := by intros; rfl
  stack : ¬ (op.identifier = 0x2 ∨ op = 0x00EE) → after.stack = before.stack := by intros; rfl
  index : ¬ (op.identifier = 0xA ∨ (op.identifier = 0xF ∧ (op.kk = 0x1E ∨ op.kk = 0x29))) →
    after.index = before.index := by intros; rfl
  screen : ¬ (op.identifier = 0xD ∨ op = 0x00E0) → after.screen = before.screen := by intros; rfl
  delay : ¬ (op.identifier = 0xF ∧ op.kk = 0x15) → after.delay = before.delay := by intros; rfl
  sound : ¬ (op.identifier = 0xF ∧ op.kk = 0x18) → after.sound = before.sound := by intros; rfl
  awaiting : ¬ (op.identifier = 0xF ∧ op.kk = 0x0A ∧ ¬ before.keypad.AnyDown) →
    after.awaiting = before.awaiting := by intros; rfl
  drawn : op.identifier ≠ 0xC → after.drawn = before.drawn := by intros; rfl
  keypad : after.keypad = before.keypad := by rfl

variable {op : Opcode} {machine : Machine}

/-! ## Registers and memory -/

theorem get_set_of_ne {registers : Registers} {x r : Reg} (other : r ≠ x) (value : UInt8) :
    (registers.set x value).get r = registers.get r := by
  rw [Registers.get_set, if_neg (Ne.symm other)]

theorem get_foldl_set_of_not_mem {targets : List Reg} {r : Reg} (other : r ∉ targets)
    (value : Reg → UInt8) (registers : Registers) :
    (targets.foldl (fun file k => file.set k (value k)) registers).get r = registers.get r := by
  induction targets generalizing registers with
  | nil => rfl
  | cons target rest ih =>
      rw [List.foldl_cons, ih (List.not_mem_of_not_mem_cons other)]
      exact get_set_of_ne (List.ne_of_not_mem_cons other) _

theorem mem_upTo_iff : ∀ r x : Reg, r ∈ x.upTo ↔ r ≤ x := by
  decide

theorem length_upTo : ∀ x : Reg, x.upTo.length = x.val + 1 := by
  decide

theorem footprint_set {x : Reg} (permitted : op.ChangesRegister machine.keypad x) (value : UInt8) :
    Footprint op machine { machine with registers := machine.registers.set x value } where
  registers := by
    intro r forbidden
    apply get_set_of_ne
    rintro rfl
    exact forbidden permitted

/-- A result that comes with a flag changes two registers, or only one if the
result goes to VF. -/
theorem footprint_setFlag (first : op.identifier = 0x8) (last : 0x3 < op.n) (value : UInt8)
    (raised : Bool) :
    Footprint op machine
      { machine with registers := (machine.registers.set op.x value).setFlag raised } where
  registers := by
    intro r forbidden
    simp only [Opcode.ChangesRegister, first, last, true_and, not_or] at forbidden
    exact (get_set_of_ne forbidden.2 _).trans (get_set_of_ne forbidden.1 _)

theorem footprint_write {bytes : List UInt8} (length : bytes.length = op.cellsChanged) :
    Footprint op machine
      { machine with memory := machine.memory.write machine.index bytes } where
  memory := by
    intro address outside
    apply Memory.get_write_of_outside
    rw [length]
    exact outside

/-! ## Instructions -/

/-- The digits of an opcode tell what its instruction may change. -/
theorem footprint_effect (noise : Noise) (machine : Machine) {instruction : Instruction}
    (row : Instruction.ofOpcode? op = some instruction) :
    Footprint op machine (effect noise instruction machine) := by
  unfold Instruction.ofOpcode? at row
  -- One case for each first digit, numbered from one.
  split at row
  case h_1 first =>
    cases row
    split
    · rename_i clears
      exact { screen := fun other => absurd (.inr clears) other }
    · split
      · rename_i returns
        rw [effect_ret]
        exact { stack := fun other => absurd (.inr returns) other }
      · exact {}
  case h_3 first =>
    cases row
    rw [effect_call]
    split
    · exact {}
    · exact { stack := fun other => absurd (.inl first) other }
  case h_7 first | h_8 first =>
    cases row
    refine footprint_set ?_ _
    simp only [Opcode.ChangesRegister, first]
  case h_6 first | h_10 first =>
    split at row <;> cases row
    exact {}
  case h_9 first =>
    split at row
    all_goals rename_i last
    all_goals cases row
    case h_1 | h_2 | h_3 | h_4 =>
      refine footprint_set ?_ _
      simp only [Opcode.ChangesRegister, first, true_or]
    all_goals exact footprint_setFlag first (by rw [last]; decide) _ _
  case h_11 first =>
    cases row
    exact { index := fun other => absurd (.inl first) other }
  case h_13 first =>
    cases row
    exact
      { registers := (footprint_set (by simp only [Opcode.ChangesRegister, first]) _).registers
        drawn := fun other => absurd first other }
  case h_14 first =>
    cases row
    exact
      { registers := (footprint_set (by simp only [Opcode.ChangesRegister, first]; rfl) _).registers
        screen := fun other => absurd (.inl first) other }
  case h_15 first =>
    split at row <;> cases row <;> exact {}
  case h_16 =>
    have first : op.identifier = 0xF := by grind
    split at row
    all_goals rename_i last
    all_goals cases row
    case h_1 =>
      refine footprint_set ?_ _
      simp only [Opcode.ChangesRegister, first, last, true_or, true_and]
    case h_2 =>
      have found := machine.keypad.firstDown_isSome_iff
      rw [effect_awaitKey]
      cases down : machine.keypad.firstDown with
      | some key =>
          rw [down] at found
          refine footprint_set ?_ _
          simp only [Opcode.ChangesRegister, first, last, found.mp rfl, and_true, or_true, true_or]
      | none =>
          rw [down] at found
          have idle : ¬ machine.keypad.AnyDown := fun up => Bool.false_ne_true (found.mpr up)
          exact { awaiting := fun other => absurd ⟨first, last, idle⟩ other }
    case h_3 => exact { delay := fun other => absurd ⟨first, last⟩ other }
    case h_4 => exact { sound := fun other => absurd ⟨first, last⟩ other }
    case h_5 => exact { index := fun other => absurd (.inr ⟨first, .inl last⟩) other }
    case h_6 => exact { index := fun other => absurd (.inr ⟨first, .inr last⟩) other }
    case h_7 =>
      apply footprint_write
      simp only [Opcode.cellsChanged, first, last]
      rfl
    case h_8 =>
      apply footprint_write
      rw [List.length_map, length_upTo]
      simp only [Opcode.cellsChanged, first, last]
      rfl
    case h_9 =>
      refine { registers := ?_ }
      intro r forbidden
      apply get_foldl_set_of_not_mem
      intro member
      apply forbidden
      simp only [Opcode.ChangesRegister, first, last, (mem_upTo_iff r op.x).mp member, and_self,
        or_true]
  all_goals
    cases row
    exact {}

/-! ## Steps -/

/-- A step that executes an instruction changes the machine only where the opcode
says so.  A step that is spent on waiting changes nothing while no key is down,
and otherwise the awaited register, the program counter and the waiting. -/
theorem step_changes_only_its_own {noise : Noise} {machine after : Machine}
    (stepped : step noise machine = .ok () after) :
    (machine.awaiting = none → Footprint (machine.memory.word machine.pc) machine after) ∧
    ∀ x, machine.awaiting = some x →
      (¬ machine.keypad.AnyDown → after = machine) ∧
      (machine.keypad.AnyDown →
        after = { machine with
          registers := after.registers
          pc := after.pc
          awaiting := after.awaiting } ∧
        ∀ r, r ≠ x → after.registers.get r = machine.registers.get r) := by
  have found := machine.keypad.firstDown_isSome_iff
  cases progress_of_step stepped with
  | @wait x awaiting idle =>
      rw [idle] at found
      refine ⟨fun active => (nomatch active.symm.trans awaiting), fun x _ => ⟨fun _ => rfl, ?_⟩⟩
      intro down
      exact absurd (found.mpr down) Bool.false_ne_true
  | @receive x key awaiting down start =>
      rw [down] at found
      refine ⟨fun active => (nomatch active.symm.trans awaiting), fun y waits => ⟨?_, ?_⟩⟩
      · intro idle
        exact absurd (found.mp rfl) idle
      · intro _
        cases waits.symm.trans awaiting
        exact ⟨rfl, fun r other => get_set_of_ne other _⟩
  | @complete plan active permits =>
      refine ⟨fun _ => ?_, fun x waits => (nomatch active.symm.trans waits)⟩
      have row := Instruction.decode_eq_ok_iff.mp permits.decoded
      rw [permits.opcode_eq] at row
      have footprint := footprint_effect noise machine row
      exact { footprint with }

/-- Storing the first two registers in the font leaves the third row of the font
and the index register as they were. -/
theorem stored_block_ends_after_two : ∃ machine after : Machine,
    Reachable (fun _ => 0) machine ∧ step (fun _ => 0) machine = .ok () after ∧
      after.memory.get 2 = machine.memory.get 2 ∧ after.index = machine.index := by
  have fits : Rom.size ⟨#[0xF1, 0x55]⟩ ≤ Memory.romLimit := by decide
  rcases Memory.initial.exists_load fits with ⟨memory, copied⟩
  let machine : Machine := { initial with memory }
  have word : machine.memory.word machine.pc = 0xF155 :=
    @Memory.word_opcode _ _ copied 0 (by decide)
  have permits : Permits machine ⟨0xF155, .storeRegisters 1, some (programStart + 2)⟩ :=
    { start := show IsStart programStart by decide
      opcode_eq := word.symm
      decoded := rfl
      course := ⟨.next, rfl, rfl⟩
      target_start := by
        intro target selected
        cases selected
        decide }
  have stepped := step_of_permits (fun _ => 0) rfl permits
  have footprint := (step_changes_only_its_own stepped).1 rfl
  rw [word] at footprint
  refine ⟨_, _, reachable_of_load _ copied, stepped, footprint.memory 2 ?_, footprint.index ?_⟩
  · change ∀ k < Opcode.cellsChanged 0xF155, _ ≠ ((0 : UInt16).toNat + k) % 4096
    decide
  · decide

end Machine
end Chip8
