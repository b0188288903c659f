import Chip8.Instruction.Basic

namespace Chip8

/-!
# Registers

Sixteen registers of one byte.  The last one, VF, also receives the flag that
arithmetic and drawing report.
-/

namespace Reg

/-- The register that a byte names.  Its high four bits do not count. -/
def ofByte (number : UInt8) : Reg :=
  ⟨number.toNat % 16, Nat.mod_lt _ (by decide)⟩

/-- VF, which holds flags. -/
def flag : Reg := 0xF

/-- The registers V0 to Vx in order. -/
def upTo (x : Reg) : List Reg :=
  (List.finRange 16).take (x.val + 1)

end Reg

structure Registers where
  values : Vector UInt8 16
  deriving DecidableEq

namespace Registers

/-- All registers zero. -/
def initial : Registers where
  values := Vector.replicate 16 0

def get (registers : Registers) (x : Reg) : UInt8 :=
  registers.values[x]

def set (registers : Registers) (x : Reg) (value : UInt8) : Registers where
  values := registers.values.set x value

/-- Adds to a register, wrapping at 256 without a flag. -/
def add (registers : Registers) (x : Reg) (value : UInt8) : Registers :=
  registers.set x (registers.get x + value)

def setFlag (registers : Registers) (raised : Bool) : Registers :=
  registers.set Reg.flag (if raised then 1 else 0)

theorem get_set (registers : Registers) (x y : Reg) (value : UInt8) :
    (registers.set x value).get y = if x = y then value else registers.get y := by
  by_cases same : x = y
  · simp [get, set, same]
  · have different : x.val ≠ y.val := fun equal => same (Fin.ext equal)
    simp [get, set, same, different]

end Registers
end Chip8
