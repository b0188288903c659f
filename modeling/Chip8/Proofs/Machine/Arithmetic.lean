import Chip8.Proofs.Machine.Footprint

namespace Chip8

/-!
# Arithmetic

Ten instructions combine two old values into a new value of Vx, and five of them
also report a flag in VF.  Operands and results may share a register: x and y may
be equal, and each of them may be VF.  What counts then is that both operands are
read before anything is written, and that the flag is written last.

The instructions are described here on numbers.  Bytes wrap at 256, which is a
remainder of integers, so a difference below zero comes back from above.
-/

/-- The number that an instruction computes for Vx, and its flag if it reports one. -/
structure Outcome where
  result : Int
  flag : Option Bool
  deriving DecidableEq

/-- What the arithmetic instruction of an opcode computes when Vx is `a` and Vy is `b`. -/
def Opcode.outcome? (op : Opcode) (a b : Nat) : Option Outcome :=
  match op.identifier with
  | 0x7 => some ⟨(a + op.kk.toNat) % 256, none⟩
  | 0x8 =>
      match op.n with
      | 0x0 => some ⟨b, none⟩
      | 0x1 => some ⟨(a ||| b : Nat), none⟩
      | 0x2 => some ⟨(a &&& b : Nat), none⟩
      | 0x3 => some ⟨(a ^^^ b : Nat), none⟩
      | 0x4 => some ⟨(a + b) % 256, some (255 < a + b)⟩
      | 0x5 => some ⟨((a : Int) - b) % 256, some (b < a)⟩
      | 0x6 => some ⟨a / 2, some (a % 2 = 1)⟩
      | 0x7 => some ⟨((b : Int) - a) % 256, some (a < b)⟩
      | 0xE => some ⟨2 * a % 256, some (128 ≤ a)⟩
      | _ => none
  | _ => none

namespace Machine

/-! ## Bytes as numbers -/

theorem natCast_toNat_sub (a b : UInt8) : ((a - b).toNat : Int) = ((a.toNat : Int) - b.toNat) % 256 := by
  have a_lt := a.toNat_lt
  have b_lt := b.toNat_lt
  rw [UInt8.toNat_sub]
  omega

theorem toNat_shiftRight_one (a : UInt8) : (a >>> 1).toNat = a.toNat / 2 := by
  rw [UInt8.toNat_shiftRight]
  exact Nat.shiftRight_eq_div_pow _ 1

theorem toNat_shiftLeft_one (a : UInt8) : (a <<< 1).toNat = 2 * a.toNat % 256 := by
  rw [UInt8.toNat_shiftLeft]
  change a.toNat <<< 1 % 256 = _
  rw [Nat.shiftLeft_eq, Nat.mul_comm]

/-- The bit that a shift to the right loses. -/
theorem lowest_bit_eq (a : UInt8) : (a &&& 1 == 1) = decide (a.toNat % 2 = 1) := by
  apply Bool.eq_iff_iff.mpr
  rw [beq_iff_eq, decide_eq_true_eq, ← UInt8.toNat_inj, UInt8.toNat_and]
  change a.toNat &&& 1 = 1 ↔ _
  rw [Nat.and_one_is_mod]

/-- The bit that a shift to the left loses. -/
theorem highest_bit_eq (a : UInt8) : (a >>> 7 == 1) = decide (128 ≤ a.toNat) := by
  have bound := a.toNat_lt
  apply Bool.eq_iff_iff.mpr
  rw [beq_iff_eq, decide_eq_true_eq, ← UInt8.toNat_inj, UInt8.toNat_shiftRight]
  change a.toNat >>> 7 = 1 ↔ _
  rw [Nat.shiftRight_eq_div_pow]
  omega

/-! ## Results and flags in the registers -/

/-- Registers after an outcome for Vx.  The flag wins if Vx is VF. -/
structure Receives (x : Reg) (outcome : Outcome) (before after : Registers) : Prop where
  flag : ∀ raised, outcome.flag = some raised →
    (after.get 0xF).toNat = if raised then 1 else 0
  result : x ≠ 0xF ∨ outcome.flag = none → ((after.get x).toNat : Int) = outcome.result
  others : ∀ r, r ≠ x → r ≠ 0xF ∨ outcome.flag = none → after.get r = before.get r

variable {registers : Registers} {x : Reg}

theorem receives_set {value : UInt8} {result : Int} (same : (value.toNat : Int) = result) :
    Receives x ⟨result, none⟩ registers (registers.set x value) where
  flag raised reported := nomatch reported
  result _ := by rw [Registers.get_set, if_pos rfl, same]
  others r other _ := get_set_of_ne other value

theorem receives_setFlag {value : UInt8} {result : Int} {raised flag : Bool}
    (same : (value.toNat : Int) = result) (agrees : raised = flag) :
    Receives x ⟨result, some flag⟩ registers ((registers.set x value).setFlag raised) where
  flag reported known := by
    cases known
    subst agrees
    rw [Registers.setFlag, Reg.flag, Registers.get_set, if_pos rfl]
    cases raised <;> rfl
  result free := by
    rcases free with other | silent
    · rw [Registers.setFlag, Reg.flag, get_set_of_ne other, Registers.get_set, if_pos rfl, same]
    · cases silent
  others r other free := by
    rcases free with ordinary | silent
    · rw [Registers.setFlag, Reg.flag, get_set_of_ne ordinary, get_set_of_ne other]
    · cases silent

/-! ## Instructions -/

theorem identifier_ne_of_outcome {op : Opcode} {a b : Nat} {outcome : Outcome}
    (computes : op.outcome? a b = some outcome) : op.identifier ≠ 0xF := by
  intro last
  simp only [Opcode.outcome?, last, reduceCtorEq] at computes

/-- The digits of an opcode tell what its instruction computes. -/
theorem receives_effect (noise : Noise) {op : Opcode} {instruction : Instruction}
    {machine : Machine} {outcome : Outcome}
    (computes : op.outcome? (machine.registers.get op.x).toNat
      (machine.registers.get op.y).toNat = some outcome)
    (row : Instruction.ofOpcode? op = some instruction) :
    Receives op.x outcome machine.registers (effect noise instruction machine).registers := by
  generalize a_eq : machine.registers.get op.x = a at computes
  generalize b_eq : machine.registers.get op.y = b at computes
  unfold Opcode.outcome? at computes
  split at computes
  case h_1 first =>
    simp only [Instruction.ofOpcode?, first, Option.some.injEq] at row
    cases computes
    cases row
    refine receives_set ?_
    rw [a_eq, UInt8.toNat_add]
    rfl
  case h_2 first =>
    split at computes
    all_goals rename_i last
    all_goals simp only [Instruction.ofOpcode?, first, last, Option.some.injEq] at row
    all_goals cases computes
    all_goals cases row
    case h_1 =>
      exact receives_set (by rw [b_eq])
    case h_2 =>
      exact receives_set (by rw [a_eq, b_eq, UInt8.toNat_or])
    case h_3 =>
      exact receives_set (by rw [a_eq, b_eq, UInt8.toNat_and])
    case h_4 =>
      exact receives_set (by rw [a_eq, b_eq, UInt8.toNat_xor])
    case h_5 =>
      refine receives_setFlag ?_ (by rw [a_eq, b_eq])
      rw [a_eq, b_eq, UInt8.toNat_add]
      rfl
    case h_6 =>
      exact receives_setFlag (by rw [a_eq, b_eq, natCast_toNat_sub])
        (by rw [a_eq, b_eq]; exact decide_eq_decide.mpr UInt8.lt_iff_toNat_lt)
    case h_7 =>
      exact receives_setFlag (by rw [a_eq, toNat_shiftRight_one]; rfl)
        (by rw [a_eq]; exact lowest_bit_eq a)
    case h_8 =>
      exact receives_setFlag (by rw [a_eq, b_eq, natCast_toNat_sub])
        (by rw [a_eq, b_eq]; exact decide_eq_decide.mpr UInt8.lt_iff_toNat_lt)
    case h_9 =>
      exact receives_setFlag (by rw [a_eq, toNat_shiftLeft_one]; rfl)
        (by rw [a_eq]; exact highest_bit_eq a)
  case h_3 => cases computes

/-- **Arithmetic computes from the old values, and the flag wins.** When a step
succeeds at an arithmetic opcode, Vx and VF receive what the instruction computes from
the values that Vx and Vy had before the step, however x, y and VF coincide, and all
other registers stay. -/
theorem arithmetic_reads_before_it_writes {noise : Noise} {before after : Machine} {op : Opcode}
    {outcome : Outcome} (known : Reachable noise before ∨ before.awaiting = none)
    (word : before.memory.word before.pc = op)
    (computes : op.outcome? (before.registers.get op.x).toNat
      (before.registers.get op.y).toNat = some outcome)
    (stepped : step noise before = .ok () after) :
    Receives op.x outcome before.registers after.registers := by
  have active : before.awaiting = none := by
    rcases known with reachable | active
    · apply (reachable_sound reachable).active_of_identifier_ne
      rw [word]
      exact identifier_ne_of_outcome computes
    · exact active
  cases progress_of_step stepped with
  | wait awaiting idle => cases active.symm.trans awaiting
  | receive awaiting down start => cases active.symm.trans awaiting
  | complete _ permits =>
      have row := Instruction.decode_eq_ok_iff.mp permits.decoded
      rw [permits.opcode_eq, word] at row
      exact receives_effect noise computes row

/-- A register that is added to itself and holds the flag ends up with the carry. -/
theorem carry_replaces_the_sum : ∃ before after : Machine,
    before.memory.word before.pc = 0x8FF4 ∧ before.registers.get 0xF = 200 ∧
      step (fun _ => 0) before = .ok () after ∧ after.registers.get 0xF = 1 := by
  have fits : Rom.size ⟨#[0x8F, 0xF4]⟩ ≤ Memory.romLimit := by decide
  rcases Memory.initial.exists_load fits with ⟨memory, copied⟩
  let before : Machine := { initial with memory, registers := Registers.initial.set 0xF 200 }
  have word : before.memory.word before.pc = 0x8FF4 :=
    @Memory.word_opcode _ _ copied 0 (by decide)
  have permits : Permits before ⟨0x8FF4, .add 0xF 0xF, some (programStart + 2)⟩ :=
    { start := show IsStart programStart by decide
      opcode_eq := word.symm
      decoded := rfl
      course := ⟨.next, rfl, rfl⟩
      target_start := by
        intro target selected
        cases selected
        decide }
  have stepped := step_of_permits (fun _ => 0) rfl permits
  have computes : Opcode.outcome? 0x8FF4 200 200 = some ⟨144, some true⟩ := by decide
  have receives := arithmetic_reads_before_it_writes (.inr rfl) word computes stepped
  exact ⟨before, _, word, rfl, stepped, UInt8.toNat_inj.mp (receives.flag true rfl)⟩

end Machine
end Chip8
