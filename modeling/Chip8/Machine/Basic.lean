import Chip8.CallStack
import Chip8.Keypad
import Chip8.Memory
import Chip8.Registers
import Chip8.Screen
import Chip8.Timer

namespace Chip8

/-!
# The machine

The complete state of an interpreter: memory with its program counter and index
register, the call stack, the registers, two timers, screen and keypad, the
register that waits for a key, and the instructions executed last.

Random numbers come from outside.  A noise source is an endless sequence, and
the machine only counts how many of its numbers it has used.

An action on the machine either answers or fails, and in both cases leaves the
state that it has reached.
-/

/-- Random numbers in the order in which they are drawn. -/
abbrev Noise := Nat → UInt32

/-- An instruction that was executed, with the address it was fetched from. -/
structure Executed where
  address : UInt16
  opcode : Opcode
  deriving DecidableEq, Repr

structure Machine where
  memory : Memory
  pc : UInt16
  index : UInt16
  stack : CallStack
  registers : Registers
  delay : Timer
  sound : Timer
  screen : Screen
  keypad : Keypad
  /-- The register that waits for a key to go down. -/
  awaiting : Option Reg
  /-- The instructions executed last, the newest first. -/
  recent : List Executed
  /-- How many random numbers have been drawn. -/
  drawn : Nat
  deriving DecidableEq

/-- An action keeps the state it has reached, also when it fails. -/
abbrev Action := EStateM Error Machine

namespace Machine

/-- How many executed instructions are remembered. -/
def historyCapacity : Nat := 10

/-- The highest address from which an opcode can be fetched. -/
def lastStart : UInt16 := 0xFFE

/-- The state after power is switched on. -/
def initial : Machine where
  memory := Memory.initial
  pc := programStart
  index := 0
  stack := CallStack.empty
  registers := Registers.initial
  delay := Timer.stopped
  sound := Timer.stopped
  screen := Screen.initial
  keypad := Keypad.released
  awaiting := none
  recent := []
  drawn := 0

/-- The executed instructions that are remembered, oldest first. -/
def history (machine : Machine) : List Executed :=
  machine.recent.reverse

/-! ## The program counter -/

/-- An address at which a program may go on. -/
def checkStart (address : UInt16) : Except Error Unit :=
  if programStart ≤ address ∧ address ≤ lastStart then .ok ()
  else .error (.programCounterOutOfRange address)

/-- An action that reads the state and may refuse it. -/
def inspect (question : Machine → Except Error α) : Action α := do
  MonadExcept.ofExcept (question (← get))

def goTo (address : UInt16) : Action Unit := do
  MonadExcept.ofExcept (checkStart address)
  modify fun machine => { machine with pc := address }

/-- Goes on to the opcode behind the current one. -/
def advance : Action Unit := do
  goTo ((← get).pc + 2)

/-! ## The call stack -/

def pushReturn (address : UInt16) : Action Unit := do
  let stack ← inspect fun machine => machine.stack.push address
  modify fun machine => { machine with stack }

def popReturn : Action UInt16 := do
  let (address, stack) ← inspect fun machine => machine.stack.pop
  modify fun machine => { machine with stack }
  return address

/-! ## Fetching -/

/-- The opcode at the program counter, which has to be in range. -/
def fetch (machine : Machine) : Except Error Opcode := do
  checkStart machine.pc
  return machine.memory.word machine.pc

def fetchDecode (machine : Machine) : Except Error (Opcode × Instruction) := do
  let opcode ← machine.fetch
  return (opcode, ← Instruction.decode opcode)

/-- The instruction that the next step will execute. -/
def currentInstruction (machine : Machine) : Except Error Instruction := do
  return (← machine.fetchDecode).2

/-! ## Power and programs -/

/-- Back to the state after power was switched on.  Random numbers that were
drawn stay drawn. -/
def reset : Action Unit :=
  modify fun machine => { initial with drawn := machine.drawn }

/-- Resets the machine and places a program in its memory. -/
def load (rom : Rom) : Action Unit := do
  reset
  let memory ← inspect fun machine => machine.memory.load rom
  modify fun machine => { machine with memory }

/-- One period of the timers has passed. -/
def tick (machine : Machine) : Machine :=
  { machine with delay := machine.delay.tick, sound := machine.sound.tick }

/-- Several periods have passed. -/
def tickTimes (machine : Machine) : Nat → Machine
  | 0 => machine
  | count + 1 => machine.tick.tickTimes count

def setKey (key : UInt8) (pressed : Bool) (machine : Machine) : Machine :=
  { machine with keypad := machine.keypad.set key pressed }

def releaseKeys (machine : Machine) : Machine :=
  { machine with keypad := Keypad.released }

/-- Whether the screen has to be shown anew; asking settles it. -/
def takeRedraw (machine : Machine) : Bool × Machine :=
  let (due, screen) := machine.screen.takeChanged
  (due, { machine with screen })

end Machine
end Chip8
