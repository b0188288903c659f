import Chip8.Word

namespace Chip8

/-!
# Opcodes

An opcode is a sixteen-bit word, read as four hexadecimal digits.  Digits are
counted from one at the left.  A run of digits is cut out of the word by a shift
and a mask.  The operand fields are such runs: the first digit identifies the
group, `x` and `y` name registers, `n` is the last digit, `kk` the last two and
`nnn` the last three.
-/

abbrev Opcode := UInt16

/-- Digits, and the registers and keys that they name, are written as literals. -/
instance digitLiterals : @NeZero Nat Zero.ofOfNat0 16 :=
  ⟨Nat.succ_ne_zero 15⟩

namespace Opcode

/-- The bits behind the run of `count` digits from digit `first` on.  Their number
is a byte, and so is every number on the way to it. -/
def placesBehind (first count : UInt8) : Except Fault (BitVec 8) := do
  let others ← Word.sub 4 count.toBitVec
  let before ← Word.sub first.toBitVec 1
  let behind ← Word.sub others before
  Word.mul behind 4

/-- Ones for all the bits of `count` digits. -/
def mask (count : UInt8) : Except Fault (BitVec 32) := do
  let places ← Word.mul count.toBitVec 4
  let above ← Word.shiftLeft 1 places.toNat
  Word.sub above 1

/-- The number that `count` digits form from digit `first` on.  The run is shifted
to the right end of a longer word, and the digits that stand before it are masked. -/
@[inline] def cut (opcode : Opcode) (first count : UInt8) : Except Fault UInt16 := do
  let places ← placesBehind first count
  let ones ← mask count
  let shifted ← Word.shiftRight (opcode.toBitVec.setWidth 32) places.toNat
  return ⟨(shifted &&& ones).setWidth 16⟩

/-- The word whose high byte is `high` and whose low byte is `low`. -/
def ofBytes (high low : UInt8) : Opcode :=
  UInt16.ofNat (256 * high.toNat + low.toNat)

def high (opcode : Opcode) : UInt8 := UInt8.ofNat (opcode.toNat / 256)
def low (opcode : Opcode) : UInt8 := UInt8.ofNat opcode.toNat

/-- The number of a run at a fixed place.  The runs of the operand fields lie inside the
opcode, so none of them is a fault.  Inlined, their places and masks are constants. -/
@[inline] def field (opcode : Opcode) (first count : UInt8) : Nat :=
  match opcode.cut first count with
  | .ok number => number.toNat
  | .error _ => 0

@[inline] def digit (opcode : Opcode) (place : UInt8) : Fin 16 :=
  Fin.ofNat 16 (opcode.field place 1)

def identifier (opcode : Opcode) : Fin 16 := opcode.digit 1
def x (opcode : Opcode) : Fin 16 := opcode.digit 2
def y (opcode : Opcode) : Fin 16 := opcode.digit 3
def n (opcode : Opcode) : Fin 16 := opcode.digit 4
def kk (opcode : Opcode) : UInt8 := UInt8.ofNat (opcode.field 3 2)
def nnn (opcode : Opcode) : Fin 4096 := ⟨opcode.field 2 3 % 4096, Nat.mod_lt _ (by decide)⟩

end Opcode
end Chip8
