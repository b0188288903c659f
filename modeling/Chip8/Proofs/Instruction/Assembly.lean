import Chip8.Instruction.Mnemonic
import Chip8.Machine.Step
import Chip8.Proofs.Hex.Reading
import Chip8.Proofs.Instruction.Table

namespace Chip8

/-!
# Mnemonics read back

A mnemonic is a name and operands, which are told apart by their first character
and their length.  So an instruction is read back from its mnemonic, except for
the register that a shift carries and does not use.  Without that register the
shift is still the same shift: it takes the same course and does the same work.

Instructions with one mnemonic are therefore the same instruction for every
machine, and their opcodes differ at most in the digit that a shift ignores.
-/

namespace Instruction

/-! ## Words -/

/-- The words of a text with commas between some of them. -/
def words (text : String) : List (List Char) :=
  (text.toList.filter (· ≠ ',')).splitOn ' '

/-- The text is a single word and has no comma. -/
def Bare (text : String) : Prop :=
  ' ' ∉ text.toList ∧ ',' ∉ text.toList

instance (text : String) : Decidable (Bare text) :=
  inferInstanceAs (Decidable (_ ∧ _))

section Words

variable {first second third : String}

theorem Bare.filter (bare : Bare first) : first.toList.filter (· ≠ ',') = first.toList := by
  apply List.filter_eq_self.mpr
  intro c member
  apply decide_eq_true
  rintro rfl
  exact bare.2 member

theorem words_of_bare (bare : Bare first) : words first = [first.toList] := by
  rw [words, bare.filter]
  exact List.splitOn_eq_singleton bare.1

/-- A blank ends a word, and a comma in front of it does not count. -/
theorem words_append (bare : Bare first) {separator : String}
    (blank : separator.toList.filter (· ≠ ',') = [' ']) (rest : String) :
    words (first ++ (separator ++ rest)) = first.toList :: words rest := by
  rw [words, String.toList_append, String.toList_append, List.filter_append, List.filter_append,
    bare.filter, blank, List.singleton_append]
  exact List.splitOn_append_cons_self_of_not_mem bare.1 _

end Words

/-! ## Operands -/

/-- The operands that are not numbers. -/
inductive Symbol where
  | index
  | block
  | delay
  | sound
  | key
  | glyph
  | decimal
  deriving DecidableEq

def Symbol.text : Symbol → String
  | .index => "I"
  | .block => "[I]"
  | .delay => "DT"
  | .sound => "ST"
  | .key => "K"
  | .glyph => "F"
  | .decimal => "B"

inductive Operand where
  | register (x : Reg)
  | byte (value : UInt8)
  | address (target : Address)
  | height (rows : Fin 16)
  | symbol (name : Symbol)
  deriving DecidableEq

namespace Operand

def text : Operand → String
  | .register x => registerText x
  | .byte value => byteText value
  | .address target => addressText target
  | .height rows => toString rows.val
  | .symbol name => name.text

/-- The operands without hexadecimal digits. -/
def digitless : List Operand :=
  [Symbol.index, .block, .delay, .sound, .key, .glyph, .decimal].map .symbol ++
    (List.finRange 16).map .height

/-- The operand that a word spells.  Two digits are a byte and more are an address. -/
def read? : List Char → Option Operand
  | 'V' :: digits => (Hex.number? digits).map fun number => .register (Fin.ofNat 16 number)
  | '0' :: 'x' :: digits =>
      (Hex.number? digits).map fun number =>
        if digits.length = 2 then .byte (UInt8.ofNat number)
        else .address (.ofWord (UInt16.ofNat number))
  | word => digitless.find? fun operand => operand.text.toList = word

theorem bare_upper {front : String} (bare : Bare front) (width number : Nat) :
    Bare (front ++ Hex.upper width number) := by
  have other (c : Char) (apart : c ∉ Hex.capitals) : c ∉ (Hex.upper width number).toList :=
    fun member => apart (Hex.mem_capitals_of_mem_upper member)
  unfold Bare
  rw [String.toList_append, List.mem_append, List.mem_append, not_or, not_or]
  exact ⟨⟨bare.1, other ' ' (by decide)⟩, bare.2, other ',' (by decide)⟩

theorem bare_text (operand : Operand) : Bare operand.text := by
  cases operand with
  | register x => exact bare_upper (by decide) 1 x
  | byte value => exact bare_upper (by decide) 2 value.toNat
  | address target => exact bare_upper (by decide) 3 target
  | height rows => decide +revert
  | symbol name => cases name <;> decide

theorem length_upper {width number : Nat} (positive : 0 < width) (fits : number < 16 ^ width) :
    (Hex.upper width number).toList.length = width := by
  rw [Hex.upper_eq_fixedUpper positive fits, Hex.fixedUpper, String.toList_ofList, List.length_map,
    Hex.length_fixed]

theorem read?_register (digits : String) :
    read? ("V" ++ digits).toList =
      (Hex.number? digits.toList).map fun number => .register (Fin.ofNat 16 number) := by
  rw [String.toList_append]
  rfl

theorem read?_numeral (digits : String) :
    read? ("0x" ++ digits).toList =
      (Hex.number? digits.toList).map fun number =>
        if digits.toList.length = 2 then .byte (UInt8.ofNat number)
        else .address (.ofWord (UInt16.ofNat number)) := by
  rw [String.toList_append]
  rfl

theorem read?_text (operand : Operand) : read? operand.text.toList = some operand := by
  cases operand with
  | register x =>
      rw [text, registerText, read?_register, Hex.number?_upper, Option.map_some,
        Fin.ofNat_val_eq_self]
  | byte value =>
      have length : (Hex.upper 2 value.toNat).toList.length = 2 :=
        length_upper (by decide) value.toNat_lt
      rw [text, byteText, read?_numeral, Hex.number?_upper, Option.map_some, if_pos length,
        UInt8.ofNat_toNat]
  | address target =>
      have length : (Hex.upper 3 target).toList.length = 3 :=
        length_upper (by decide) target.isLt
      rw [text, addressText, read?_numeral, Hex.number?_upper, Option.map_some, length,
        if_neg (by decide)]
      exact congrArg (some ∘ address) (Address.ofWord_toWord target)
  | height rows => decide +revert
  | symbol name => cases name <;> decide

end Operand

/-! ## Rows -/

/-- The name of an instruction and its operands. -/
def form : Instruction → String × List Operand
  | .sys target => ("SYS", [.address target])
  | .clearScreen => ("CLS", [])
  | .ret => ("RET", [])
  | .jump target => ("JP", [.address target])
  | .call target => ("CALL", [.address target])
  | .skipEqualByte x byte => ("SE", [.register x, .byte byte])
  | .skipUnequalByte x byte => ("SNE", [.register x, .byte byte])
  | .skipEqual x y => ("SE", [.register x, .register y])
  | .skipUnequal x y => ("SNE", [.register x, .register y])
  | .setByte x byte => ("LD", [.register x, .byte byte])
  | .addByte x byte => ("ADD", [.register x, .byte byte])
  | .copy x y => ("LD", [.register x, .register y])
  | .or x y => ("OR", [.register x, .register y])
  | .and x y => ("AND", [.register x, .register y])
  | .xor x y => ("XOR", [.register x, .register y])
  | .add x y => ("ADD", [.register x, .register y])
  | .sub x y => ("SUB", [.register x, .register y])
  | .shiftRight x _ => ("SHR", [.register x])
  | .subFrom x y => ("SUBN", [.register x, .register y])
  | .shiftLeft x _ => ("SHL", [.register x])
  | .setIndex target => ("LD", [.symbol .index, .address target])
  | .jumpOffset target => ("JP", [.register 0, .address target])
  | .random x mask => ("RND", [.register x, .byte mask])
  | .draw x y height => ("DRW", [.register x, .register y, .height height])
  | .skipDown x => ("SKP", [.register x])
  | .skipUp x => ("SKNP", [.register x])
  | .readDelay x => ("LD", [.register x, .symbol .delay])
  | .awaitKey x => ("LD", [.register x, .symbol .key])
  | .setDelay x => ("LD", [.symbol .delay, .register x])
  | .setSound x => ("LD", [.symbol .sound, .register x])
  | .addIndex x => ("ADD", [.symbol .index, .register x])
  | .pointGlyph x => ("LD", [.symbol .glyph, .register x])
  | .storeDecimal x => ("LD", [.symbol .decimal, .register x])
  | .storeRegisters x => ("LD", [.symbol .block, .register x])
  | .loadRegisters x => ("LD", [.register x, .symbol .block])

/-- The instruction with a name and operands.  A shift has one operand, and its
second register is taken to be V0. -/
def ofForm? : String → List Operand → Option Instruction
  | "SYS", [.address target] => some (.sys target)
  | "CLS", [] => some .clearScreen
  | "RET", [] => some .ret
  | "JP", [.address target] => some (.jump target)
  | "CALL", [.address target] => some (.call target)
  | "SE", [.register x, .byte byte] => some (.skipEqualByte x byte)
  | "SNE", [.register x, .byte byte] => some (.skipUnequalByte x byte)
  | "SE", [.register x, .register y] => some (.skipEqual x y)
  | "SNE", [.register x, .register y] => some (.skipUnequal x y)
  | "LD", [.register x, .byte byte] => some (.setByte x byte)
  | "ADD", [.register x, .byte byte] => some (.addByte x byte)
  | "LD", [.register x, .register y] => some (.copy x y)
  | "OR", [.register x, .register y] => some (.or x y)
  | "AND", [.register x, .register y] => some (.and x y)
  | "XOR", [.register x, .register y] => some (.xor x y)
  | "ADD", [.register x, .register y] => some (.add x y)
  | "SUB", [.register x, .register y] => some (.sub x y)
  | "SHR", [.register x] => some (.shiftRight x 0)
  | "SUBN", [.register x, .register y] => some (.subFrom x y)
  | "SHL", [.register x] => some (.shiftLeft x 0)
  | "LD", [.symbol .index, .address target] => some (.setIndex target)
  | "JP", [.register 0, .address target] => some (.jumpOffset target)
  | "RND", [.register x, .byte mask] => some (.random x mask)
  | "DRW", [.register x, .register y, .height height] => some (.draw x y height)
  | "SKP", [.register x] => some (.skipDown x)
  | "SKNP", [.register x] => some (.skipUp x)
  | "LD", [.register x, .symbol .delay] => some (.readDelay x)
  | "LD", [.register x, .symbol .key] => some (.awaitKey x)
  | "LD", [.symbol .delay, .register x] => some (.setDelay x)
  | "LD", [.symbol .sound, .register x] => some (.setSound x)
  | "ADD", [.symbol .index, .register x] => some (.addIndex x)
  | "LD", [.symbol .glyph, .register x] => some (.pointGlyph x)
  | "LD", [.symbol .decimal, .register x] => some (.storeDecimal x)
  | "LD", [.symbol .block, .register x] => some (.storeRegisters x)
  | "LD", [.register x, .symbol .block] => some (.loadRegisters x)
  | _, _ => none

/-- The instruction with V0 in the place of a register that it does not use. -/
def plain : Instruction → Instruction
  | .shiftRight x _ => .shiftRight x 0
  | .shiftLeft x _ => .shiftLeft x 0
  | instruction => instruction

theorem ofForm?_form (instruction : Instruction) :
    ofForm? instruction.form.1 instruction.form.2 = some instruction.plain := by
  cases instruction <;> rfl

/-! ## Mnemonics -/

/-- Operands with commas between them. -/
def listed (first : Operand) : List Operand → String
  | [] => first.text
  | second :: rest => first.text ++ (", " ++ listed second rest)

/-- A name with operands. -/
def written (name : String) : List Operand → String
  | [] => name
  | first :: rest => unary name (listed first rest)

theorem binary_eq (name first second : String) :
    binary name first second = unary name (first ++ (", " ++ second)) := by
  simp only [binary, unary, String.append_assoc]

theorem registerText_zero : registerText 0 = "V0" := by
  rw [registerText, Hex.upper_eq_fixedUpper (by decide) (by decide)]
  decide

theorem mnemonic_eq_written (instruction : Instruction) :
    instruction.mnemonic = written instruction.form.1 instruction.form.2 := by
  cases instruction with
  | jumpOffset target =>
      rw [mnemonic, ← registerText_zero]
      exact binary_eq _ _ _
  | draw x y height =>
      rw [mnemonic, binary_eq]
      simp only [unary, String.append_assoc]
      rfl
  | clearScreen | ret | sys target | jump target | call target | shiftRight x y | shiftLeft x y
  | skipDown x | skipUp x => rfl
  | _ => exact binary_eq _ _ _

theorem words_listed (first : Operand) (rest : List Operand) :
    words (listed first rest) = (first :: rest).map (·.text.toList) := by
  induction rest generalizing first with
  | nil => exact words_of_bare first.bare_text
  | cons second rest ih =>
      rw [listed, words_append first.bare_text (by decide), ih]
      rfl

theorem words_written {name : String} (bare : Bare name) (operands : List Operand) :
    words (written name operands) = name.toList :: operands.map (·.text.toList) := by
  cases operands with
  | nil => exact words_of_bare bare
  | cons first rest =>
      rw [written, unary, String.append_assoc, words_append bare (by decide), words_listed]

theorem bare_name (instruction : Instruction) : Bare instruction.form.1 := by
  cases instruction <;> simp only [form] <;> decide

/-- The instruction that a mnemonic spells. -/
def ofMnemonic? (text : String) : Option Instruction :=
  match words text with
  | [] => none
  | name :: operands => (operands.mapM Operand.read?).bind (ofForm? (String.ofList name))

/-- A mnemonic is read back, up to the register that a shift does not use. -/
theorem ofMnemonic?_mnemonic (instruction : Instruction) :
    ofMnemonic? instruction.mnemonic = some instruction.plain := by
  have operands : (instruction.form.2.map (·.text.toList)).mapM Operand.read? =
      some (instruction.form.2.map id) := by
    rw [List.mapM_map]
    exact mapM_eq_some fun operand _ => operand.read?_text
  rw [mnemonic_eq_written, ofMnemonic?, words_written (bare_name instruction)]
  change ((instruction.form.2.map (·.text.toList)).mapM Operand.read?).bind
    (ofForm? (String.ofList instruction.form.1.toList)) = _
  rw [operands, List.map_id, String.ofList_toList]
  exact ofForm?_form instruction

theorem mnemonic_plain (instruction : Instruction) :
    instruction.plain.mnemonic = instruction.mnemonic := by
  cases instruction <;> rfl

theorem mnemonic_eq_iff {instruction other : Instruction} :
    instruction.mnemonic = other.mnemonic ↔ instruction.plain = other.plain := by
  constructor
  · intro same
    have read := congrArg ofMnemonic? same
    rw [ofMnemonic?_mnemonic, ofMnemonic?_mnemonic] at read
    exact Option.some.inj read
  · intro same
    rw [← mnemonic_plain instruction, same, mnemonic_plain]

/-! ## Course and work -/

theorem flow_plain (machine : Machine) (instruction : Instruction) :
    machine.flow instruction.plain = machine.flow instruction := by
  cases instruction <;> rfl

theorem execute_plain (noise : Noise) (instruction : Instruction) :
    Machine.execute noise instruction.plain = Machine.execute noise instruction := by
  cases instruction <;> rfl

/-! ## Unused registers -/

/-- Instructions that agree without their unused registers are equal or the same
shift.  The cases are those of `plain`. -/
theorem plain_eq_plain_iff {instruction other : Instruction} :
    instruction.plain = other.plain ↔ instruction = other ∨
      (∃ x y z, instruction = .shiftRight x y ∧ other = .shiftRight x z) ∨
      ∃ x y z, instruction = .shiftLeft x y ∧ other = .shiftLeft x z := by
  constructor
  · fun_cases plain instruction with
    | case1 x y =>
        fun_cases plain other with
        | case1 x z =>
            rintro ⟨⟩
            exact .inr (.inl ⟨x, y, z, rfl, rfl⟩)
        | case2 x z => exact nofun
        | case3 other notRight notLeft =>
            rintro rfl
            exact absurd rfl (notRight x 0)
    | case2 x y =>
        fun_cases plain other with
        | case1 x z => exact nofun
        | case2 x z =>
            rintro ⟨⟩
            exact .inr (.inr ⟨x, y, z, rfl, rfl⟩)
        | case3 other notRight notLeft =>
            rintro rfl
            exact absurd rfl (notLeft x 0)
    | case3 instruction notRight notLeft =>
        fun_cases plain other with
        | case1 x z => exact fun same => absurd same (notRight x 0)
        | case2 x z => exact fun same => absurd same (notLeft x 0)
        | case3 other => exact Or.inl
  · rintro (rfl | ⟨x, y, z, rfl, rfl⟩ | ⟨x, y, z, rfl, rfl⟩) <;> rfl

end Instruction

/-! ## Opcodes -/

/-- The opcodes are shifts of the same register in the same direction.  They
differ at most in their third digit, which shifts ignore. -/
def Opcode.SameShift (op other : Opcode) : Prop :=
  op.identifier = 0x8 ∧ other.identifier = 0x8 ∧ (op.n = 0x6 ∨ op.n = 0xE) ∧ other.n = op.n ∧
    other.x = op.x

instance (op other : Opcode) : Decidable (op.SameShift other) :=
  inferInstanceAs (Decidable (_ ∧ _))

namespace Instruction

variable {op other : Opcode} {instruction another : Instruction}

theorem sameShift_registersForm (x y z : Reg) {last : Nat} (small : last < 16)
    (shifts : Fin.ofNat 16 last = 0x6 ∨ Fin.ofNat 16 last = 0xE) :
    (registersForm 0x8 x y last).SameShift (registersForm 0x8 x z last) := by
  unfold Opcode.SameShift
  rw [identifier_registersForm _ _ _ small, identifier_registersForm _ _ _ small,
    n_registersForm, n_registersForm, x_registersForm _ _ _ small, x_registersForm _ _ _ small]
  exact ⟨rfl, rfl, shifts, rfl, rfl⟩

theorem sameShift_iff :
    op.SameShift other ↔
      (∃ x y z, op = (shiftRight x y).opcode ∧ other = (shiftRight x z).opcode) ∨
      ∃ x y z, op = (shiftLeft x y).opcode ∧ other = (shiftLeft x z).opcode := by
  constructor
  · rintro ⟨first, otherFirst, right | left, last, register⟩
    · refine .inl ⟨op.x, op.y, other.y, ?_, ?_⟩
      · exact (registersForm_x_y (congrArg Fin.val first) (congrArg Fin.val right)).symm
      · rw [← register]
        exact (registersForm_x_y (congrArg Fin.val otherFirst)
          (congrArg Fin.val (last.trans right))).symm
    · refine .inr ⟨op.x, op.y, other.y, ?_, ?_⟩
      · exact (registersForm_x_y (congrArg Fin.val first) (congrArg Fin.val left)).symm
      · rw [← register]
        exact (registersForm_x_y (congrArg Fin.val otherFirst)
          (congrArg Fin.val (last.trans left))).symm
  · rintro (⟨x, y, z, rfl, rfl⟩ | ⟨x, y, z, rfl, rfl⟩)
    · exact sameShift_registersForm x y z (by decide) (.inl rfl)
    · exact sameShift_registersForm x y z (by decide) (.inr rfl)

/-- An opcode that decodes to an instruction is the one that the instruction has. -/
theorem eq_iff_of_decode (decoded : decode op = .ok instruction) (wellFormed : another.WellFormed) :
    instruction = another ↔ op = another.opcode := by
  constructor
  · rintro rfl
    exact (opcode_of_decode decoded).symm
  · rintro rfl
    rw [decode_eq_ok_iff, ofOpcode?_opcode wellFormed] at decoded
    exact (Option.some.inj decoded).symm

theorem shift_iff_of_decode (decoded : decode op = .ok instruction) (x y : Reg) :
    (instruction = .shiftRight x y ↔ op = (shiftRight x y).opcode) ∧
      (instruction = .shiftLeft x y ↔ op = (shiftLeft x y).opcode) :=
  ⟨eq_iff_of_decode decoded trivial, eq_iff_of_decode decoded trivial⟩

/-- **Mnemonics are unambiguous.** Opcodes that decode have the same mnemonic exactly
if they are equal or the same shift.  Whatever the mnemonic does not tell does not
matter: instructions with the same mnemonic have the same control flow on every
machine, and carrying them out has the same result and leaves the same machine. -/
theorem mnemonic_tells_the_instruction (decoded : decode op = .ok instruction)
    (otherDecoded : decode other = .ok another) :
    (instruction.mnemonic = another.mnemonic ↔ op = other ∨ op.SameShift other) ∧
    (instruction.mnemonic = another.mnemonic → ∀ noise machine,
      Machine.flow machine instruction = Machine.flow machine another ∧
      Machine.execute noise instruction machine = Machine.execute noise another machine) := by
  constructor
  · have same : instruction = another ↔ op = other := by
      rw [eq_iff_of_decode decoded (wellFormed_of_ofOpcode? (decode_eq_ok_iff.mp otherDecoded)),
        opcode_of_decode otherDecoded]
    rw [mnemonic_eq_iff, plain_eq_plain_iff, same, sameShift_iff]
    simp only [shift_iff_of_decode decoded, shift_iff_of_decode otherDecoded]
  · intro same noise machine
    have plain := mnemonic_eq_iff.mp same
    constructor
    · rw [← flow_plain machine instruction, plain, flow_plain]
    · rw [← execute_plain noise instruction, plain, execute_plain]

/-- Two shifts of V1 that carry different registers are written alike. -/
theorem ignored_digit_is_not_written :
    decode 0x8126 = .ok (.shiftRight 1 2) ∧ decode 0x8136 = .ok (.shiftRight 1 3) ∧
      (shiftRight 1 2).mnemonic = (shiftRight 1 3).mnemonic ∧
      Machine.execute (fun _ => 0) (.shiftRight 1 2) Machine.initial =
        Machine.execute (fun _ => 0) (.shiftRight 1 3) Machine.initial := by
  have main := @mnemonic_tells_the_instruction 0x8126 0x8136 _ _ rfl rfl
  have written := main.1.mpr (.inr (by decide))
  exact ⟨rfl, rfl, written, (main.2 written _ _).2⟩

end Instruction
end Chip8
