import Chip8.Instruction.Mnemonic
import Chip8.Machine.Step

namespace Chip8

/-!
# The journal

What the machine reports while it works.  Entries follow from the state before
an action and from its outcome, so reporting never influences execution.
-/

inductive Level where
  | trace
  | debug
  | warn
  | error
  deriving DecidableEq, Repr

structure Entry where
  level : Level
  text : String
  deriving DecidableEq, Repr

namespace Entry

def reset : Entry := ⟨.debug, "emulator reset"⟩

def loaded (rom : Rom) : Entry :=
  ⟨.debug, "loaded " ++ toString rom.size ++ " byte program"⟩

def read (rom : Rom) (path : String) : Entry :=
  ⟨.debug, "read " ++ toString rom.size ++ " bytes from " ++ path⟩

/-- An opcode that was fetched and decoded, before it is executed. -/
def decoded (pc : UInt16) (opcode : Opcode) (instruction : Instruction) : Entry :=
  ⟨.trace, "0x" ++ Hex.upper 3 pc.toNat ++ "  " ++ Hex.upper 4 opcode.toNat ++ "  " ++
    instruction.mnemonic⟩

/-- A step at an address failed. -/
def halted (pc : UInt16) (failure : Error) : Entry :=
  ⟨.warn, "halted at 0x" ++ Hex.upper 3 pc.toNat ++ ": " ++ failure.message⟩

/-- A player stopped after a failed step. -/
def stopped (failure : Error) : Entry :=
  ⟨.error, "emulation stopped: " ++ failure.message⟩

end Entry

namespace Machine

/-- The instruction that a step announces.  A waiting machine announces none,
nor does one that cannot fetch and decode. -/
def announcement (machine : Machine) : List Entry :=
  match machine.awaiting, machine.fetchDecode with
  | none, .ok (opcode, instruction) => [Entry.decoded machine.pc opcode instruction]
  | _, _ => []

/-- The entries of up to `count` steps, which end at the first that fails. -/
def runEntries (noise : Noise) : Nat → Machine → List Entry
  | 0, _ => []
  | count + 1, machine =>
      machine.announcement ++
        match step noise machine with
        | .ok _ next => runEntries noise count next
        | .error failure reached => [Entry.halted reached.pc failure]

/-- The entries of loading a program. -/
def loadEntries (rom : Rom) (machine : Machine) : List Entry :=
  match load rom machine with
  | .ok _ _ => [Entry.reset, Entry.loaded rom]
  | .error _ _ => [Entry.reset]

end Machine
end Chip8
