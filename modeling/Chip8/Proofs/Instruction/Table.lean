import Chip8.Instruction.Basic
import Chip8.Proofs.Instruction.Digits

namespace Chip8
namespace Instruction

/-!
# Reading and writing the opcode table

Reading an opcode cuts it into digits; writing an instruction puts digits side
by side.  The forms of the table are inverse to the cuts, so an opcode that was
read is the one that its instruction writes, and an instruction that was written
is read again.  The exceptions are the calls of machine code whose opcodes belong
to the two instructions without operands.
-/

/-! ## Words from their own digits -/

theorem addressForm_nnn {op : Opcode} {group : Nat} (first : op.identifier.val = group) :
    addressForm group op.nnn = op := by
  have bound := op.toNat_lt
  apply UInt16.toNat_inj.mp
  simp only [addressForm, Opcode.nnn_val, Opcode.identifier_val, UInt16.toNat_ofNat'] at first ⊢
  omega

theorem byteForm_x {op : Opcode} {group : Nat} {byte : UInt8}
    (first : op.identifier.val = group) (last : op.kk = byte) :
    byteForm group op.x byte = op := by
  have bound := op.toNat_lt
  subst last
  apply UInt16.toNat_inj.mp
  simp only [byteForm, Opcode.x_val, Opcode.kk_toNat, Opcode.identifier_val,
    UInt16.toNat_ofNat'] at first ⊢
  omega

theorem registersForm_x_y {op : Opcode} {group last : Nat}
    (first : op.identifier.val = group) (final : op.n.val = last) :
    registersForm group op.x op.y last = op := by
  have bound := op.toNat_lt
  apply UInt16.toNat_inj.mp
  simp only [registersForm, Opcode.x_val, Opcode.y_val, Opcode.n_val, Opcode.identifier_val,
    UInt16.toNat_ofNat'] at first final ⊢
  omega

theorem toNat_opcode_awaitKey (x : Reg) :
    (awaitKey x).opcode.toNat = 0xF00A + x.val * 0x100 := by
  have bound := x.isLt
  simp only [opcode, byteForm, UInt16.toNat_ofNat', UInt8.toNat_ofNat]
  omega

/-! ## The digits of a word -/

section Forms

variable (group : Nat) (target : Address) (x y : Reg) (byte : UInt8)

theorem identifier_addressForm :
    (addressForm group target).identifier = Fin.ofNat 16 group := by
  have bound := target.isLt
  apply Fin.ext
  simp only [addressForm, Opcode.identifier_val, UInt16.toNat_ofNat', Fin.val_ofNat]
  omega

theorem nnn_addressForm : (addressForm group target).nnn = target := by
  have bound := target.isLt
  apply Fin.ext
  simp only [addressForm, Opcode.nnn_val, UInt16.toNat_ofNat']
  omega

theorem identifier_byteForm : (byteForm group x byte).identifier = Fin.ofNat 16 group := by
  have bound := byte.toNat_lt
  apply Fin.ext
  simp only [byteForm, Opcode.identifier_val, UInt16.toNat_ofNat', Fin.val_ofNat]
  omega

theorem x_byteForm : (byteForm group x byte).x = x := by
  have bound := byte.toNat_lt
  apply Fin.ext
  simp only [byteForm, Opcode.x_val, UInt16.toNat_ofNat']
  omega

theorem kk_byteForm : (byteForm group x byte).kk = byte := by
  have bound := byte.toNat_lt
  apply UInt8.toNat_inj.mp
  simp only [byteForm, Opcode.kk_toNat, UInt16.toNat_ofNat']
  omega

variable {last : Nat}

theorem identifier_registersForm (small : last < 16) :
    (registersForm group x y last).identifier = Fin.ofNat 16 group := by
  apply Fin.ext
  simp only [registersForm, Opcode.identifier_val, UInt16.toNat_ofNat', Fin.val_ofNat]
  omega

theorem x_registersForm (small : last < 16) : (registersForm group x y last).x = x := by
  apply Fin.ext
  simp only [registersForm, Opcode.x_val, UInt16.toNat_ofNat']
  omega

theorem y_registersForm (small : last < 16) : (registersForm group x y last).y = y := by
  apply Fin.ext
  simp only [registersForm, Opcode.y_val, UInt16.toNat_ofNat']
  omega

theorem n_registersForm : (registersForm group x y last).n = Fin.ofNat 16 last := by
  apply Fin.ext
  simp only [registersForm, Opcode.n_val, UInt16.toNat_ofNat', Fin.val_ofNat]
  omega

end Forms

/-! ## Rows -/

/-- A well-formed instruction is read from its own opcode. -/
theorem ofOpcode?_opcode {instruction : Instruction} (wellFormed : instruction.WellFormed) :
    ofOpcode? instruction.opcode = some instruction := by
  cases instruction with
  | sys target =>
      rcases wellFormed with ⟨notClear, notReturn⟩
      have clears : addressForm 0x0 target ≠ 0x00E0 := by
        intro equal
        exact notClear ((nnn_addressForm 0x0 target).symm.trans (congrArg Opcode.nnn equal))
      have returns : addressForm 0x0 target ≠ 0x00EE := by
        intro equal
        exact notReturn ((nnn_addressForm 0x0 target).symm.trans (congrArg Opcode.nnn equal))
      simp only [opcode, ofOpcode?, identifier_addressForm, nnn_addressForm, clears, returns,
        if_false]
      rfl
  | clearScreen | ret => rfl
  | jump target | call target | setIndex target | jumpOffset target =>
      simp only [opcode, ofOpcode?, identifier_addressForm, nnn_addressForm]
      rfl
  | skipEqual x y | skipUnequal x y | copy x y | or x y | and x y | xor x y | add x y | sub x y
  | shiftRight x y | subFrom x y | shiftLeft x y =>
      simp only [opcode, ofOpcode?, identifier_registersForm, x_registersForm, y_registersForm,
        n_registersForm, Nat.reduceLT]
      rfl
  | draw x y height =>
      have last : Fin.ofNat 16 height.val = height := Fin.ofNat_val_eq_self height
      simp only [opcode, ofOpcode?, identifier_registersForm, x_registersForm, y_registersForm,
        n_registersForm, height.isLt, last]
      rfl
  | skipEqualByte x byte | skipUnequalByte x byte | setByte x byte | addByte x byte
  | random x mask | skipDown x | skipUp x =>
      simp only [opcode, ofOpcode?, identifier_byteForm, x_byteForm, kk_byteForm]
      rfl
  | readDelay x | awaitKey x | setDelay x | setSound x | addIndex x | pointGlyph x
  | storeDecimal x | storeRegisters x | loadRegisters x =>
      simp only [opcode, ofOpcode?, identifier_byteForm, x_byteForm, kk_byteForm]

/-- An opcode that was read is the opcode of its instruction. -/
theorem opcode_of_ofOpcode? {op : Opcode} {instruction : Instruction}
    (row : ofOpcode? op = some instruction) : instruction.opcode = op := by
  unfold ofOpcode? at row
  -- One case for each first digit, numbered from one.
  split at row
  case h_1 first =>
    cases row
    split
    · rename_i clears
      exact clears.symm
    · split
      · rename_i returns
        exact returns.symm
      · exact addressForm_nnn (congrArg Fin.val first)
  case h_2 first | h_3 first | h_11 first | h_12 first =>
    cases row
    exact addressForm_nnn (congrArg Fin.val first)
  case h_4 first | h_5 first | h_7 first | h_8 first | h_13 first =>
    cases row
    exact byteForm_x (congrArg Fin.val first) rfl
  case h_6 first | h_10 first =>
    split at row
    · rename_i last
      cases row
      exact registersForm_x_y (congrArg Fin.val first) (congrArg Fin.val last)
    · cases row
  case h_9 first =>
    split at row
    all_goals rename_i last
    all_goals cases row
    all_goals exact registersForm_x_y (congrArg Fin.val first) (congrArg Fin.val last)
  case h_14 first =>
    cases row
    exact registersForm_x_y (congrArg Fin.val first) rfl
  case h_15 first =>
    split at row
    all_goals rename_i last
    all_goals cases row
    all_goals exact byteForm_x (congrArg Fin.val first) last
  case h_16 =>
    have first : op.identifier = 0xF := by grind
    split at row
    all_goals rename_i last
    all_goals cases row
    all_goals exact byteForm_x (congrArg Fin.val first) last

/-- The two opcodes that a call of machine code cannot have are read as the
instructions without operands. -/
theorem wellFormed_of_ofOpcode? {op : Opcode} {instruction : Instruction}
    (row : ofOpcode? op = some instruction) : instruction.WellFormed := by
  have written := opcode_of_ofOpcode? row
  subst written
  cases instruction with
  | sys target =>
      constructor
      · rintro rfl
        exact absurd row (by decide)
      · rintro rfl
        exact absurd row (by decide)
  | _ => trivial

theorem decode_eq_ok_iff {op : Opcode} {instruction : Instruction} :
    decode op = .ok instruction ↔ ofOpcode? op = some instruction := by
  unfold decode
  cases ofOpcode? op <;> simp

theorem decode_eq_error_iff {op : Opcode} {failure : Error} :
    decode op = .error failure ↔ ofOpcode? op = none ∧ failure = .unknownOpcode op := by
  unfold decode
  cases ofOpcode? op <;> simp [eq_comm]

/-- An opcode that decodes is the opcode of its instruction. -/
theorem opcode_of_decode {op : Opcode} {instruction : Instruction}
    (decoded : decode op = .ok instruction) : instruction.opcode = op :=
  opcode_of_ofOpcode? (decode_eq_ok_iff.mp decoded)

/-- An opcode has no row exactly if no well-formed instruction writes it. -/
theorem ofOpcode?_eq_none_iff {op : Opcode} :
    ofOpcode? op = none ↔ ∀ instruction : Instruction, instruction.WellFormed →
      instruction.opcode ≠ op := by
  constructor
  · rintro missing instruction wellFormed rfl
    rw [ofOpcode?_opcode wellFormed] at missing
    cases missing
  · intro unwritten
    cases row : ofOpcode? op with
    | none => rfl
    | some instruction =>
        exact absurd (opcode_of_ofOpcode? row) (unwritten instruction (wellFormed_of_ofOpcode? row))

/-- **Decoding and writing are inverse.** Every well-formed instruction is
decoded from the opcode of its row, and an opcode that decodes is the one of its
well-formed instruction.  An opcode that no such instruction has is an error that
carries it, and there are no other errors.  So no two opcodes that decode have
the same instruction. -/
theorem decode_accepts_exactly_the_table :
    (∀ instruction : Instruction, instruction.WellFormed →
      decode instruction.opcode = .ok instruction) ∧
    (∀ op instruction, decode op = .ok instruction →
      instruction.WellFormed ∧ instruction.opcode = op) ∧
    (∀ op failure, decode op = .error failure ↔
      failure = .unknownOpcode op ∧ ∀ instruction : Instruction, instruction.WellFormed →
        instruction.opcode ≠ op) ∧
    ∀ op other instruction, decode op = .ok instruction → decode other = .ok instruction →
      op = other := by
  refine ⟨?written, ?read, ?refused, ?unique⟩
  case written =>
    intro instruction wellFormed
    exact decode_eq_ok_iff.mpr (ofOpcode?_opcode wellFormed)
  case read =>
    intro op instruction decoded
    exact ⟨wellFormed_of_ofOpcode? (decode_eq_ok_iff.mp decoded), opcode_of_decode decoded⟩
  case refused =>
    intro op failure
    rw [decode_eq_error_iff, ofOpcode?_eq_none_iff, and_comm]
  case unique =>
    intro op other instruction decoded otherDecoded
    exact (opcode_of_decode decoded).symm.trans (opcode_of_decode otherDecoded)

end Instruction
end Chip8
