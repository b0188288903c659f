import Chip8.Machine.Basic

namespace Chip8
namespace Machine

/-!
# Execution

A step fetches an opcode, decodes it, finds out where execution will go on,
checks that address, and only then carries the instruction out.  A machine that
waits for a key does nothing until a key is down.

Every check comes before the first write, so a step that fails leaves the state
as it was.
-/

/-- What an instruction does to the program counter. -/
inductive Flow where
  | next
  | skip
  | jump (target : UInt16)
  /-- The machine stays at the instruction. -/
  | hold
  deriving DecidableEq, Repr

namespace Flow

def skipIf (condition : Bool) : Flow :=
  if condition then .skip else .next

/-- Where execution goes on after an instruction at `pc`. -/
def target? (pc : UInt16) : Flow → Option UInt16
  | .next => some (pc + 2)
  | .skip => some (pc + 4)
  | .jump address => some address
  | .hold => none

end Flow

/-- The control flow of an instruction.  The address behind a call has to be
one at which the program may go on, and it has to fit on the stack. -/
def flow (machine : Machine) : Instruction → Except Error Flow
  | .ret => do return .jump (← machine.stack.top)
  | .jump target => return .jump target.toWord
  | .call target => do
      checkStart (machine.pc + 2)
      if machine.stack.isFull then .error (.stackOverflow CallStack.capacity)
      else return .jump target.toWord
  | .skipEqualByte x byte => return .skipIf (machine.registers.get x == byte)
  | .skipUnequalByte x byte => return .skipIf (machine.registers.get x != byte)
  | .skipEqual x y => return .skipIf (machine.registers.get x == machine.registers.get y)
  | .skipUnequal x y => return .skipIf (machine.registers.get x != machine.registers.get y)
  | .jumpOffset target =>
      return .jump (target.toWord + (machine.registers.get 0).toUInt16)
  | .skipDown x => return .skipIf (machine.keypad.isDown (machine.registers.get x))
  | .skipUp x => return .skipIf (!machine.keypad.isDown (machine.registers.get x))
  | .awaitKey _ => return if machine.keypad.firstDown.isNone then .hold else .next
  | _ => return .next

/-! ## Effects -/

def modifyRegisters (change : Registers → Registers) : Action Unit :=
  modify fun machine => { machine with registers := change machine.registers }

/-- Sets Vx to a combination of Vx and Vy. -/
def combine (x y : Reg) (operation : UInt8 → UInt8 → UInt8) : Action Unit :=
  modifyRegisters fun registers =>
    registers.set x (operation (registers.get x) (registers.get y))

/-- Sets Vx to a combination of Vx and Vy and then VF to a flag.  Both are
computed from the old values, and the flag is written last. -/
def combineFlag (x y : Reg) (operation : UInt8 → UInt8 → UInt8)
    (flag : UInt8 → UInt8 → Bool) : Action Unit :=
  modifyRegisters fun registers =>
    let a := registers.get x
    let b := registers.get y
    (registers.set x (operation a b)).setFlag (flag a b)

/-- The three decimal digits of a byte, most significant first. -/
def decimalDigits (value : UInt8) : List UInt8 :=
  [value / 100, value / 10 % 10, value % 10]

/-- Sets V0 to Vx to the bytes from an address on. -/
def loadFrom (memory : Memory) (address : UInt16) (x : Reg) (registers : Registers) :
    Registers :=
  x.upTo.foldl (fun file k => file.set k (memory.get (address + UInt16.ofNat k))) registers

/-- Draws the sprite at the index register and flags a collision. -/
def drawSprite (x y : Reg) (height : Nat) (machine : Machine) : Machine :=
  let sprite := machine.memory.read machine.index height
  let (collided, screen) :=
    machine.screen.paint (machine.registers.get x) (machine.registers.get y) sprite
  { machine with screen, registers := machine.registers.setFlag collided }

/-- Sets Vx to some bits of the next random number. -/
def drawRandom (noise : Noise) (x : Reg) (mask : UInt8) (machine : Machine) : Machine :=
  let byte := (noise machine.drawn).toUInt8
  { machine with
    registers := machine.registers.set x (mask &&& byte)
    drawn := machine.drawn + 1 }

/-- Carries an instruction out, apart from what it does to the program counter. -/
def execute (noise : Noise) : Instruction → Action Unit
  | .sys _ | .jump _ | .jumpOffset _ => pure ()
  | .skipEqualByte .. | .skipUnequalByte .. | .skipEqual .. | .skipUnequal .. => pure ()
  | .skipDown _ | .skipUp _ => pure ()
  | .clearScreen => modify fun machine => { machine with screen := machine.screen.clear }
  | .ret => discard popReturn
  | .call _ => do pushReturn ((← get).pc + 2)
  | .setByte x byte => modifyRegisters (·.set x byte)
  | .addByte x byte => modifyRegisters (·.add x byte)
  | .copy x y => combine x y fun _ b => b
  | .or x y => combine x y (· ||| ·)
  | .and x y => combine x y (· &&& ·)
  | .xor x y => combine x y (· ^^^ ·)
  | .add x y => combineFlag x y (· + ·) fun a b => 255 < a.toNat + b.toNat
  | .sub x y => combineFlag x y (· - ·) fun a b => b < a
  | .subFrom x y => combineFlag x y (fun a b => b - a) fun a b => a < b
  | .shiftRight x _ => combineFlag x x (fun a _ => a >>> 1) fun a _ => a &&& 1 == 1
  | .shiftLeft x _ => combineFlag x x (fun a _ => a <<< 1) fun a _ => a >>> 7 == 1
  | .setIndex target => modify fun machine => { machine with index := target.toWord }
  | .random x mask => modify (drawRandom noise x mask)
  | .draw x y height => modify (drawSprite x y height)
  | .readDelay x => modify fun machine =>
      { machine with registers := machine.registers.set x machine.delay.count }
  | .awaitKey x => modify fun machine =>
      match machine.keypad.firstDown with
      | some key => { machine with registers := machine.registers.set x (UInt8.ofNat key) }
      | none => { machine with awaiting := some x }
  | .setDelay x => modify fun machine =>
      { machine with delay := ⟨machine.registers.get x⟩ }
  | .setSound x => modify fun machine =>
      { machine with sound := ⟨machine.registers.get x⟩ }
  | .addIndex x => modify fun machine =>
      { machine with index := machine.index + (machine.registers.get x).toUInt16 }
  | .pointGlyph x => modify fun machine =>
      { machine with index := glyphAddress (machine.registers.get x) }
  | .storeDecimal x => modify fun machine =>
      { machine with
        memory := machine.memory.write machine.index (decimalDigits (machine.registers.get x)) }
  | .storeRegisters x => modify fun machine =>
      { machine with
        memory := machine.memory.write machine.index (x.upTo.map machine.registers.get) }
  | .loadRegisters x => modify fun machine =>
      { machine with
        registers := loadFrom machine.memory machine.index x machine.registers }

/-! ## Steps -/

/-- Remembers an executed instruction and forgets the oldest beyond the span. -/
def remember (executed : Executed) : Action Unit :=
  modify fun machine =>
    { machine with recent := (executed :: machine.recent).take historyCapacity }

/-- A waiting machine takes the lowest key that is down and goes on. -/
def pollKey (x : Reg) : Action Unit := do
  match (← get).keypad.firstDown with
  | none => pure ()
  | some key =>
      advance
      modify fun machine =>
        { machine with
          registers := machine.registers.set x (UInt8.ofNat key)
          awaiting := none }

/-- Fetches, decodes and executes one instruction. -/
def cycle (noise : Noise) : Action Unit := do
  let pc := (← get).pc
  let (opcode, instruction) ← inspect fetchDecode
  let target? := (← inspect fun machine => machine.flow instruction).target? pc
  if let some target := target? then
    MonadExcept.ofExcept (checkStart target)
  execute noise instruction
  if let some target := target? then
    goTo target
  remember ⟨pc, opcode⟩

/-- One step: a cycle, or a look at the keypad when a key is awaited. -/
def step (noise : Noise) : Action Unit := do
  match (← get).awaiting with
  | some x => pollKey x
  | none => cycle noise

/-- Takes a number of steps and stops at the first that fails. -/
def run (noise : Noise) : Nat → Action Unit
  | 0 => pure ()
  | count + 1 => do
      step noise
      run noise count

end Machine
end Chip8
