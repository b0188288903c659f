import Chip8.Instruction.Basic

namespace Chip8
namespace Instruction

/-!
# Mnemonics

The assembly text of an instruction: a name and its operands.  Addresses have
at least three hexadecimal digits and bytes two, registers are a `V` with one
digit, and a sprite height is decimal.
-/

def addressText (target : Address) : String :=
  "0x" ++ Hex.upper 3 target

def byteText (byte : UInt8) : String :=
  "0x" ++ Hex.upper 2 byte.toNat

def registerText (x : Reg) : String :=
  "V" ++ Hex.upper 1 x

/-- A name followed by one operand. -/
def unary (name operand : String) : String :=
  name ++ " " ++ operand

/-- A name followed by two operands. -/
def binary (name first second : String) : String :=
  name ++ " " ++ first ++ ", " ++ second

def mnemonic : Instruction → String
  | .sys target => unary "SYS" (addressText target)
  | .clearScreen => "CLS"
  | .ret => "RET"
  | .jump target => unary "JP" (addressText target)
  | .call target => unary "CALL" (addressText target)
  | .skipEqualByte x byte => binary "SE" (registerText x) (byteText byte)
  | .skipUnequalByte x byte => binary "SNE" (registerText x) (byteText byte)
  | .skipEqual x y => binary "SE" (registerText x) (registerText y)
  | .skipUnequal x y => binary "SNE" (registerText x) (registerText y)
  | .setByte x byte => binary "LD" (registerText x) (byteText byte)
  | .addByte x byte => binary "ADD" (registerText x) (byteText byte)
  | .copy x y => binary "LD" (registerText x) (registerText y)
  | .or x y => binary "OR" (registerText x) (registerText y)
  | .and x y => binary "AND" (registerText x) (registerText y)
  | .xor x y => binary "XOR" (registerText x) (registerText y)
  | .add x y => binary "ADD" (registerText x) (registerText y)
  | .sub x y => binary "SUB" (registerText x) (registerText y)
  | .shiftRight x _ => unary "SHR" (registerText x)
  | .subFrom x y => binary "SUBN" (registerText x) (registerText y)
  | .shiftLeft x _ => unary "SHL" (registerText x)
  | .setIndex target => binary "LD" "I" (addressText target)
  | .jumpOffset target => binary "JP" "V0" (addressText target)
  | .random x mask => binary "RND" (registerText x) (byteText mask)
  | .draw x y height =>
      binary "DRW" (registerText x) (registerText y) ++ ", " ++ toString height.val
  | .skipDown x => unary "SKP" (registerText x)
  | .skipUp x => unary "SKNP" (registerText x)
  | .readDelay x => binary "LD" (registerText x) "DT"
  | .awaitKey x => binary "LD" (registerText x) "K"
  | .setDelay x => binary "LD" "DT" (registerText x)
  | .setSound x => binary "LD" "ST" (registerText x)
  | .addIndex x => binary "ADD" "I" (registerText x)
  | .pointGlyph x => binary "LD" "F" (registerText x)
  | .storeDecimal x => binary "LD" "B" (registerText x)
  | .storeRegisters x => binary "LD" "[I]" (registerText x)
  | .loadRegisters x => binary "LD" (registerText x) "[I]"

end Instruction
end Chip8
