import Chip8.Address
import Chip8.Error
import Chip8.Rom

namespace Chip8

/-!
# Memory

Memory is a ring of 4096 bytes: an address is a sixteen-bit word of which the
low twelve bits count.  The first eighty bytes hold the font, five bytes for
each hexadecimal digit, and programs are copied behind it.
-/

/-- The sprites of the sixteen digits, five rows each. -/
def font : Array UInt8 := #[
  0xF0, 0x90, 0x90, 0x90, 0xF0,
  0x20, 0x60, 0x20, 0x20, 0x70,
  0xF0, 0x10, 0xF0, 0x80, 0xF0,
  0xF0, 0x10, 0xF0, 0x10, 0xF0,
  0x90, 0x90, 0xF0, 0x10, 0x10,
  0xF0, 0x80, 0xF0, 0x10, 0xF0,
  0xF0, 0x80, 0xF0, 0x90, 0xF0,
  0xF0, 0x10, 0x20, 0x40, 0x40,
  0xF0, 0x90, 0xF0, 0x90, 0xF0,
  0xF0, 0x90, 0xF0, 0x10, 0xF0,
  0xF0, 0x90, 0xF0, 0x90, 0x90,
  0xE0, 0x90, 0xE0, 0x90, 0xE0,
  0xF0, 0x80, 0x80, 0x80, 0xF0,
  0xE0, 0x90, 0x90, 0x90, 0xE0,
  0xF0, 0x80, 0xF0, 0x80, 0xF0,
  0xF0, 0x80, 0xF0, 0x80, 0x80]

def glyphHeight : Nat := 5

/-- Where the sprite of a digit lies.  Only the low four bits of the digit count. -/
def glyphAddress (digit : UInt8) : UInt16 :=
  UInt16.ofNat (digit.toNat % 16 * glyphHeight)

/-- The row of a digit's sprite, counted from the top. -/
def glyphRow (digit row : Nat) : UInt8 :=
  font[digit * glyphHeight + row]?.getD 0

structure Memory where
  bytes : Vector UInt8 4096
  deriving DecidableEq

namespace Memory

/-- The font and zeros. -/
def initial : Memory where
  bytes := Vector.ofFn fun address => font[address.val]?.getD 0

def get (memory : Memory) (address : UInt16) : UInt8 :=
  memory.bytes[Address.ofWord address]

def set (memory : Memory) (address : UInt16) (byte : UInt8) : Memory where
  bytes := memory.bytes.set (Address.ofWord address) byte

/-- `count` bytes from an address on, going round the ring. -/
def read (memory : Memory) (address : UInt16) (count : Nat) : List UInt8 :=
  (List.range count).map fun k => memory.get (address + UInt16.ofNat k)

/-- Writes bytes one after the other from an address on, going round the ring. -/
def write (memory : Memory) (address : UInt16) : List UInt8 → Memory
  | [] => memory
  | byte :: rest => (memory.set address byte).write (address + 1) rest

/-- The big-endian word at an address. -/
def word (memory : Memory) (address : UInt16) : Opcode :=
  Opcode.ofBytes (memory.get address) (memory.get (address + 1))

/-- The most bytes that a program may have.  The last cell of memory is left
free, so that no program fills it. -/
def romLimit : Nat := 0xDFF

/-- Copies a program behind the font.  A program that is too large is not
copied at all. -/
def load (memory : Memory) (rom : Rom) : Except Error Memory :=
  if rom.size ≤ romLimit then
    .ok { bytes := Vector.ofFn fun address =>
      if programStart.toNat ≤ address ∧ address < programStart.toNat + rom.size then
        rom.byte (address - programStart.toNat)
      else memory.bytes[address] }
  else .error (.romTooLarge rom.size romLimit)

theorem get_set (memory : Memory) (address other : UInt16) (byte : UInt8) :
    (memory.set address byte).get other =
      if Address.ofWord address = Address.ofWord other then byte else memory.get other := by
  by_cases same : Address.ofWord address = Address.ofWord other
  · simp [get, set, same]
  · have different : (Address.ofWord address).val ≠ (Address.ofWord other).val :=
      fun equal => same (Fin.ext equal)
    simp [get, set, same, different]

end Memory
end Chip8
