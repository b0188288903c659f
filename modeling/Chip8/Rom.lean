import Chip8.Opcode

namespace Chip8

/-!
# Program images

A ROM is a stream of bytes without a header.  Read as a program it is a list of
big-endian opcodes at the addresses where they will lie in memory; when the
number of bytes is odd, the last opcode ends in a zero byte.
-/

/-- Where programs are placed in memory, and where they start. -/
def programStart : UInt16 := 0x200

structure Rom where
  bytes : Array UInt8
  deriving DecidableEq

namespace Rom

def size (rom : Rom) : Nat := rom.bytes.size

def isEmpty (rom : Rom) : Bool := rom.bytes.isEmpty

/-- The byte at an offset, and zero beyond the end. -/
def byte (rom : Rom) (offset : Nat) : UInt8 := rom.bytes[offset]?.getD 0

/-- The number of opcodes, counting an incomplete last one. -/
def opcodeCount (rom : Rom) : Nat := (rom.size + 1) / 2

/-- The address and the value of an opcode, counted from zero.  Addresses wrap
after the last sixteen-bit word. -/
def opcode (rom : Rom) (number : Nat) : UInt16 × Opcode :=
  (programStart + UInt16.ofNat (2 * number),
    Opcode.ofBytes (rom.byte (2 * number)) (rom.byte (2 * number + 1)))

def opcodes (rom : Rom) : List (UInt16 × Opcode) :=
  (List.range rom.opcodeCount).map rom.opcode

end Rom
end Chip8
