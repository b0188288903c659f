import Chip8.Address
import Chip8.Error
import Chip8.Opcode

namespace Chip8

/-!
# Instructions

The thirty-five instructions with their operands, and the table that ties them
to opcodes.  `Instruction.ofOpcode?` reads a row of the table and
`Instruction.opcode` writes it.  A call of machine code is the only instruction
whose operand is restricted: two of its addresses spell instructions of their
own.
-/

/-- The number of a register, from V0 to VF. -/
abbrev Reg := Fin 16

inductive Instruction where
  /-- A call of machine code, which does nothing here. -/
  | sys (target : Address)
  | clearScreen
  | ret
  | jump (target : Address)
  | call (target : Address)
  | skipEqualByte (x : Reg) (byte : UInt8)
  | skipUnequalByte (x : Reg) (byte : UInt8)
  | skipEqual (x y : Reg)
  | skipUnequal (x y : Reg)
  | setByte (x : Reg) (byte : UInt8)
  | addByte (x : Reg) (byte : UInt8)
  | copy (x y : Reg)
  | or (x y : Reg)
  | and (x y : Reg)
  | xor (x y : Reg)
  | add (x y : Reg)
  | sub (x y : Reg)
  /-- Shifts read and write Vx; the second register is carried but not used. -/
  | shiftRight (x y : Reg)
  | subFrom (x y : Reg)
  | shiftLeft (x y : Reg)
  | setIndex (target : Address)
  | jumpOffset (target : Address)
  | random (x : Reg) (mask : UInt8)
  | draw (x y : Reg) (height : Fin 16)
  | skipDown (x : Reg)
  | skipUp (x : Reg)
  | readDelay (x : Reg)
  | awaitKey (x : Reg)
  | setDelay (x : Reg)
  | setSound (x : Reg)
  | addIndex (x : Reg)
  | pointGlyph (x : Reg)
  | storeDecimal (x : Reg)
  | storeRegisters (x : Reg)
  | loadRegisters (x : Reg)
  deriving DecidableEq, Repr

namespace Instruction

/-- The instruction of an opcode, if the table has a row for it. -/
def ofOpcode? (op : Opcode) : Option Instruction :=
  match op.identifier with
  | 0x0 =>
      some (if op = 0x00E0 then .clearScreen
        else if op = 0x00EE then .ret
        else .sys op.nnn)
  | 0x1 => some (.jump op.nnn)
  | 0x2 => some (.call op.nnn)
  | 0x3 => some (.skipEqualByte op.x op.kk)
  | 0x4 => some (.skipUnequalByte op.x op.kk)
  | 0x5 => if op.n = 0 then some (.skipEqual op.x op.y) else none
  | 0x6 => some (.setByte op.x op.kk)
  | 0x7 => some (.addByte op.x op.kk)
  | 0x8 =>
      match op.n with
      | 0x0 => some (.copy op.x op.y)
      | 0x1 => some (.or op.x op.y)
      | 0x2 => some (.and op.x op.y)
      | 0x3 => some (.xor op.x op.y)
      | 0x4 => some (.add op.x op.y)
      | 0x5 => some (.sub op.x op.y)
      | 0x6 => some (.shiftRight op.x op.y)
      | 0x7 => some (.subFrom op.x op.y)
      | 0xE => some (.shiftLeft op.x op.y)
      | _ => none
  | 0x9 => if op.n = 0 then some (.skipUnequal op.x op.y) else none
  | 0xA => some (.setIndex op.nnn)
  | 0xB => some (.jumpOffset op.nnn)
  | 0xC => some (.random op.x op.kk)
  | 0xD => some (.draw op.x op.y op.n)
  | 0xE =>
      match op.kk with
      | 0x9E => some (.skipDown op.x)
      | 0xA1 => some (.skipUp op.x)
      | _ => none
  | _ =>
      match op.kk with
      | 0x07 => some (.readDelay op.x)
      | 0x0A => some (.awaitKey op.x)
      | 0x15 => some (.setDelay op.x)
      | 0x18 => some (.setSound op.x)
      | 0x1E => some (.addIndex op.x)
      | 0x29 => some (.pointGlyph op.x)
      | 0x33 => some (.storeDecimal op.x)
      | 0x55 => some (.storeRegisters op.x)
      | 0x65 => some (.loadRegisters op.x)
      | _ => none

/-- An opcode outside the table is an error that carries the opcode itself. -/
def decode (op : Opcode) : Except Error Instruction :=
  match ofOpcode? op with
  | some instruction => .ok instruction
  | none => .error (.unknownOpcode op)

/-- A first digit followed by an address. -/
def addressForm (group : Nat) (target : Address) : Opcode :=
  UInt16.ofNat (0x1000 * group + target)

/-- A first digit followed by a register and a byte. -/
def byteForm (group : Nat) (x : Reg) (byte : UInt8) : Opcode :=
  UInt16.ofNat (0x1000 * group + 0x100 * x + byte.toNat)

/-- A first digit followed by two registers and a last digit. -/
def registersForm (group : Nat) (x y : Reg) (last : Nat) : Opcode :=
  UInt16.ofNat (0x1000 * group + 0x100 * x + 0x10 * y + last)

/-- The opcode of the table row with its operands filled in. -/
def opcode : Instruction → Opcode
  | .sys target => addressForm 0x0 target
  | .clearScreen => 0x00E0
  | .ret => 0x00EE
  | .jump target => addressForm 0x1 target
  | .call target => addressForm 0x2 target
  | .skipEqualByte x byte => byteForm 0x3 x byte
  | .skipUnequalByte x byte => byteForm 0x4 x byte
  | .skipEqual x y => registersForm 0x5 x y 0x0
  | .setByte x byte => byteForm 0x6 x byte
  | .addByte x byte => byteForm 0x7 x byte
  | .copy x y => registersForm 0x8 x y 0x0
  | .or x y => registersForm 0x8 x y 0x1
  | .and x y => registersForm 0x8 x y 0x2
  | .xor x y => registersForm 0x8 x y 0x3
  | .add x y => registersForm 0x8 x y 0x4
  | .sub x y => registersForm 0x8 x y 0x5
  | .shiftRight x y => registersForm 0x8 x y 0x6
  | .subFrom x y => registersForm 0x8 x y 0x7
  | .shiftLeft x y => registersForm 0x8 x y 0xE
  | .skipUnequal x y => registersForm 0x9 x y 0x0
  | .setIndex target => addressForm 0xA target
  | .jumpOffset target => addressForm 0xB target
  | .random x mask => byteForm 0xC x mask
  | .draw x y height => registersForm 0xD x y height
  | .skipDown x => byteForm 0xE x 0x9E
  | .skipUp x => byteForm 0xE x 0xA1
  | .readDelay x => byteForm 0xF x 0x07
  | .awaitKey x => byteForm 0xF x 0x0A
  | .setDelay x => byteForm 0xF x 0x15
  | .setSound x => byteForm 0xF x 0x18
  | .addIndex x => byteForm 0xF x 0x1E
  | .pointGlyph x => byteForm 0xF x 0x29
  | .storeDecimal x => byteForm 0xF x 0x33
  | .storeRegisters x => byteForm 0xF x 0x55
  | .loadRegisters x => byteForm 0xF x 0x65

/-- The instruction has a row of its own.  The addresses 0E0 and 0EE of a call
of machine code belong to the two instructions without operands. -/
def WellFormed : Instruction → Prop
  | .sys target => target ≠ 0x0E0 ∧ target ≠ 0x0EE
  | _ => True

end Instruction
end Chip8
