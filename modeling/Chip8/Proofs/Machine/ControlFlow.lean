import Chip8.Proofs.Machine.Invariant
import Chip8.Proofs.Memory.Ring

namespace Chip8

/-!
# Where a step leads

The route of a machine is read off the digits of the opcode at the program
counter: it names the address where execution goes on, says that the machine
stays, or gives the error.  Targets are numbers and do not wrap; whether a
target is in range is asked once, at the end.  No instruction is decoded and
nothing is executed, so the route is a specification of control flow beside
the cycle that implements it.

For a reachable machine the two agree exactly, in success and in failure.
Reachability is needed: it rules out that fetching fails, that a return
address is out of range, and that a waiting machine is at another instruction.
-/

/-- The opcode table has a row for the opcode. -/
def Opcode.isListed (op : Opcode) : Bool :=
  match op.identifier with
  | 0x5 | 0x9 => op.n = 0x0
  | 0x8 => op.n ≤ 0x7 ∨ op.n = 0xE
  | 0xE => op.kk = 0x9E ∨ op.kk = 0xA1
  | 0xF => op.kk ∈ [0x07, 0x0A, 0x15, 0x18, 0x1E, 0x29, 0x33, 0x55, 0x65]
  | _ => true

namespace Keypad

/-- Some key is down. -/
def AnyDown (keypad : Keypad) : Prop :=
  ∃ key : Key, keypad.down.get key = true

/-- The number names a key, and this key is down. -/
def Presses (keypad : Keypad) (number : UInt8) : Prop :=
  ∃ key : Key, key.val = number.toNat ∧ keypad.down.get key = true

instance (keypad : Keypad) : Decidable keypad.AnyDown :=
  inferInstanceAs (Decidable (∃ _, _))

instance (keypad : Keypad) (number : UInt8) : Decidable (keypad.Presses number) :=
  inferInstanceAs (Decidable (∃ _, _))

theorem isDown_eq_true_iff (keypad : Keypad) (number : UInt8) :
    keypad.isDown number = true ↔ keypad.Presses number := by
  unfold isDown Presses
  by_cases small : number.toNat < 16
  · rw [Vector.getElem?_eq_getElem small]
    constructor
    · intro down
      exact ⟨⟨number.toNat, small⟩, rfl, down⟩
    · rintro ⟨⟨key, bound⟩, rfl, down⟩
      exact down
  · rw [Vector.getElem?_eq_none (by omega)]
    constructor
    · intro impossible
      cases impossible
    · rintro ⟨key, equal, _⟩
      exact absurd key.isLt (by omega)

theorem firstDown_isSome_iff (keypad : Keypad) :
    keypad.firstDown.isSome = true ↔ keypad.AnyDown := by
  simp [firstDown, AnyDown, Vector.get]

end Keypad

/-- Where a step leads before the target is checked. -/
inductive Route where
  | stay
  | to (target : Nat)
  | refuse (failure : Error)

namespace Route

/-- The program counter after a step that takes the route, or the error of the step. -/
def outcome (pc : UInt16) : Route → Except Error Nat
  | .stay => .ok pc.toNat
  | .to target =>
      if 0x200 ≤ target ∧ target ≤ 0xFFE then .ok target
      else .error (.programCounterOutOfRange (UInt16.ofNat target))
  | .refuse failure => .error failure

end Route

namespace Machine

/-- The route of an instruction that skips the next one under a condition. -/
def branch (machine : Machine) (condition : Prop) [Decidable condition] : Route :=
  .to (if condition then machine.pc.toNat + 4 else machine.pc.toNat + 2)

/-- Where a call leads.  The return address is refused before a full stack is. -/
def callRoute (machine : Machine) (target : Nat) : Route :=
  if 0xFFE < machine.pc.toNat + 2 then
    .refuse (.programCounterOutOfRange (machine.pc + 2))
  else if machine.stack.depth = 16 then .refuse (.stackOverflow 16)
  else .to target

def returnRoute (machine : Machine) : Route :=
  match machine.stack.newestFirst with
  | [] => .refuse .stackUnderflow
  | address :: _ => .to address.toNat

/-- Where an opcode of the table leads a machine that does not wait for a key. -/
def opcodeRoute (machine : Machine) (op : Opcode) : Route :=
  let v := machine.registers.get
  match op.identifier with
  | 0x0 => if op = 0x00EE then machine.returnRoute else .to (machine.pc.toNat + 2)
  | 0x1 => .to op.nnn
  | 0x2 => machine.callRoute op.nnn
  | 0x3 => machine.branch (v op.x = op.kk)
  | 0x4 => machine.branch (v op.x ≠ op.kk)
  | 0x5 => machine.branch (v op.x = v op.y)
  | 0x9 => machine.branch (v op.x ≠ v op.y)
  | 0xB => .to (op.nnn + (v 0).toNat)
  | 0xE =>
      if op.kk = 0x9E then machine.branch (machine.keypad.Presses (v op.x))
      else machine.branch (¬ machine.keypad.Presses (v op.x))
  | 0xF =>
      if op.kk = 0x0A ∧ ¬ machine.keypad.AnyDown then .stay
      else .to (machine.pc.toNat + 2)
  | _ => .to (machine.pc.toNat + 2)

/-- Where the next step leads. -/
def route (machine : Machine) : Route :=
  if machine.awaiting.isSome then
    if machine.keypad.AnyDown then .to (machine.pc.toNat + 2) else .stay
  else
    let op := machine.memory.word machine.pc
    if op.isListed then machine.opcodeRoute op else .refuse (.unknownOpcode op)

/-! ## The route of a decoded instruction -/

/-- The route that the control flow of an instruction stands for. -/
def flowRoute (pc : UInt16) : Except Error Flow → Route
  | .ok .next => .to (pc.toNat + 2)
  | .ok .skip => .to (pc.toNat + 4)
  | .ok (.jump address) => .to address.toNat
  | .ok .hold => .stay
  | .error failure => .refuse failure

theorem flowRoute_skipIf (machine : Machine) {test : Bool} {condition : Prop}
    [Decidable condition] (means : test = true ↔ condition) :
    flowRoute machine.pc (.ok (.skipIf test)) = machine.branch condition := by
  by_cases holds : condition
  · simp [Flow.skipIf, flowRoute, branch, holds, means.mpr holds]
  · have fails : test = false := Bool.eq_false_iff.mpr fun holding => holds (means.mp holding)
    simp [Flow.skipIf, flowRoute, branch, holds, fails]

theorem flowRoute_ret (machine : Machine) :
    flowRoute machine.pc (machine.flow .ret) = machine.returnRoute := by
  unfold flow returnRoute CallStack.top
  cases machine.stack.newestFirst <;> rfl

theorem flowRoute_call {machine : Machine} (sound : Sound machine) (target : Address) :
    flowRoute machine.pc (machine.flow (.call target)) = machine.callRoute target := by
  have position := sound.start.toNat_add_two
  have lower := sound.start.1
  have full : machine.stack.isFull = true ↔ machine.stack.depth = 16 := by
    have depth := sound.depth_le
    rw [CallStack.isFull, CallStack.capacity, decide_eq_true_iff]
    omega
  unfold flow callRoute
  rw [checkStart_eq]
  by_cases beyond : 0xFFE < machine.pc.toNat + 2
  · have refused : ¬ IsStart (machine.pc + 2) := fun start => by
      have upper := start.2
      omega
    rw [if_neg refused, if_pos beyond]
    rfl
  · have allowed : IsStart (machine.pc + 2) := ⟨by omega, by omega⟩
    rw [if_pos allowed, if_neg beyond]
    by_cases depth : machine.stack.depth = 16
    · simp only [full.mpr depth, depth, if_true]
      rfl
    · have room : machine.stack.isFull = false := by
        rw [← Bool.not_eq_true, full]
        exact depth
      simp only [room, depth, if_false, Bool.false_eq_true]
      exact congrArg Route.to (Address.toNat_toWord target)

theorem flowRoute_jumpOffset (machine : Machine) (target : Address) :
    flowRoute machine.pc (machine.flow (.jumpOffset target)) =
      .to (target + (machine.registers.get 0).toNat) := by
  have small := (machine.registers.get 0).toNat_lt
  have bound := target.isLt
  apply congrArg Route.to
  rw [UInt16.toNat_add, Address.toNat_toWord, UInt8.toNat_toUInt16]
  omega

theorem flowRoute_awaitKey (machine : Machine) (x : Reg) :
    flowRoute machine.pc (machine.flow (.awaitKey x)) =
      if machine.keypad.AnyDown then .to (machine.pc.toNat + 2) else .stay := by
  rw [flow, ← Option.not_isSome]
  by_cases down : machine.keypad.AnyDown
  · rw [if_pos down, machine.keypad.firstDown_isSome_iff.mpr down]
    rfl
  · have idle : machine.keypad.firstDown.isSome = false :=
      Bool.eq_false_iff.mpr fun found => down (machine.keypad.firstDown_isSome_iff.mp found)
    rw [if_neg down, idle]
    rfl

/-- The digits of an opcode say the same about control flow as its instruction. -/
theorem flowRoute_eq_opcodeRoute {machine : Machine} (sound : Sound machine) {op : Opcode}
    {instruction : Instruction} (row : Instruction.ofOpcode? op = some instruction) :
    flowRoute machine.pc (machine.flow instruction) = machine.opcodeRoute op := by
  unfold Instruction.ofOpcode? at row
  -- One case for each first digit, numbered from one.
  split at row
  case h_1 first =>
    cases row
    simp only [opcodeRoute, first]
    by_cases clears : op = 0x00E0
    · subst clears
      rfl
    · by_cases returns : op = 0x00EE
      · subst returns
        exact flowRoute_ret machine
      · simp only [clears, returns, if_false]
        rfl
  case h_2 first =>
    cases row
    simp only [opcodeRoute, first]
    exact congrArg Route.to (Address.toNat_toWord op.nnn)
  case h_3 first =>
    cases row
    simp only [opcodeRoute, first]
    exact flowRoute_call sound op.nnn
  case h_4 first =>
    cases row
    simp only [opcodeRoute, first]
    exact flowRoute_skipIf machine beq_iff_eq
  case h_5 first =>
    cases row
    simp only [opcodeRoute, first]
    exact flowRoute_skipIf machine bne_iff_ne
  case h_6 first =>
    simp only [opcodeRoute, first]
    split at row
    · cases row
      exact flowRoute_skipIf machine beq_iff_eq
    · cases row
  case h_9 first =>
    simp only [opcodeRoute, first]
    split at row <;> cases row <;> rfl
  case h_10 first =>
    simp only [opcodeRoute, first]
    split at row
    · cases row
      exact flowRoute_skipIf machine bne_iff_ne
    · cases row
  case h_12 first =>
    cases row
    simp only [opcodeRoute, first]
    exact flowRoute_jumpOffset machine op.nnn
  case h_15 first =>
    simp only [opcodeRoute, first]
    split at row
    · rename_i last
      cases row
      rw [if_pos last]
      exact flowRoute_skipIf machine (machine.keypad.isDown_eq_true_iff _)
    · rename_i last
      cases row
      rw [if_neg (by rw [last]; decide)]
      refine flowRoute_skipIf machine ?_
      rw [Bool.not_eq_true', ← Bool.not_eq_true, machine.keypad.isDown_eq_true_iff]
    · cases row
  case h_16 =>
    have first : op.identifier = 0xF := by grind
    simp only [opcodeRoute, first]
    split at row
    all_goals rename_i last
    all_goals cases row
    case h_2 =>
      rw [flowRoute_awaitKey]
      by_cases down : machine.keypad.AnyDown <;> simp only [last, down] <;> rfl
    all_goals
      rw [if_neg fun both => absurd (last.symm.trans both.1) (by decide)]
      rfl
  case h_7 first | h_8 first | h_11 first | h_13 first | h_14 first =>
    cases row
    simp only [opcodeRoute, first]
    rfl

/-- An opcode is in the table when it has an instruction. -/
theorem isListed_eq_isSome (op : Opcode) :
    op.isListed = (Instruction.ofOpcode? op).isSome := by
  unfold Instruction.ofOpcode?
  split
  case h_6 first | h_9 first | h_10 first | h_15 first =>
    simp only [Opcode.isListed, first]
    split <;> grind
  case h_16 =>
    have first : op.identifier = 0xF := by grind
    simp only [Opcode.isListed, first, List.mem_cons, List.not_mem_nil]
    split <;> grind
  all_goals
    rename_i first
    simp only [Opcode.isListed, first]
    rfl

/-! ## The route of a step -/

theorem outcome_to_toNat (pc address : UInt16) :
    (Route.to address.toNat).outcome pc = do
      checkStart address
      return address.toNat := by
  rw [checkStart_eq]
  by_cases start : IsStart address
  · rw [if_pos start]
    exact if_pos start
  · rw [if_neg start]
    refine (if_neg start).trans ?_
    rw [UInt16.ofNat_toNat]
    rfl

/-- The route of the control flow decides where a cycle ends. -/
theorem cycle_outcome (noise : Noise) {machine : Machine} {instruction : Instruction}
    (start : IsStart machine.pc)
    (decoded : Instruction.decode (machine.memory.word machine.pc) = .ok instruction) :
    (do return complete noise (← machine.plan) machine).map
        (fun after : Machine => after.pc.toNat) =
      (flowRoute machine.pc (machine.flow instruction)).outcome machine.pc := by
  have leads (address : UInt16) :
      (do
        let plan ← (do
          checkTarget (some address)
          return Plan.mk (machine.memory.word machine.pc) instruction (some address))
        return complete noise plan machine).map (fun after : Machine => after.pc.toNat) =
      (Route.to address.toNat).outcome machine.pc := by
    rw [outcome_to_toNat, checkTarget]
    cases checkStart address <;> rfl
  simp only [plan_eq start, decoded]
  cases machine.flow instruction with
  | error failure => rfl
  | ok course =>
      cases course with
      | hold => rfl
      | next => exact (leads (machine.pc + 2)).trans (by rw [start.toNat_add_two]; rfl)
      | skip => exact (leads (machine.pc + 4)).trans (by rw [start.toNat_add_four]; rfl)
      | jump address => exact leads address

/-- A reachable machine comes to where its route leads, or fails as its route says. -/
theorem Sound.next_outcome {machine : Machine} (sound : Sound machine) (noise : Noise) :
    (machine.next noise).map (fun after : Machine => after.pc.toNat) =
      machine.route.outcome machine.pc := by
  unfold next route
  cases awaiting : machine.awaiting with
  | some x =>
      simp only [Option.isSome_some, if_true]
      have found := machine.keypad.firstDown_isSome_iff
      cases down : machine.keypad.firstDown with
      | none =>
          rw [down] at found
          rw [if_neg fun up => absurd (found.mpr up) Bool.false_ne_true]
          rfl
      | some key =>
          rw [down] at found
          rw [if_pos (found.mp rfl), ← sound.start.toNat_add_two, outcome_to_toNat]
          change ((do checkStart (machine.pc + 2); return machine.receive x key) :
            Except Error Machine).map _ = _
          cases checkStart (machine.pc + 2) <;> rfl
  | none =>
      simp only [Option.isSome_none, Bool.false_eq_true, if_false]
      rw [isListed_eq_isSome]
      cases row : Instruction.ofOpcode? (machine.memory.word machine.pc) with
      | none =>
          have unknown : Instruction.decode (machine.memory.word machine.pc) =
              .error (.unknownOpcode (machine.memory.word machine.pc)) := by
            rw [Instruction.decode, row]
          rw [plan_eq sound.start, unknown]
          rfl
      | some instruction =>
          rw [Option.isSome_some, if_pos rfl, ← flowRoute_eq_opcodeRoute sound row]
          exact cycle_outcome noise sound.start (Instruction.decode_eq_ok_iff.mpr row)

/-- From a reachable machine a step comes to an address, or fails with an error,
exactly when the route says so. -/
theorem step_follows_route {noise : Noise} {machine : Machine}
    (reachable : Reachable noise machine) :
    (∀ target, (∃ after, step noise machine = .ok () after ∧ after.pc.toNat = target) ↔
      machine.route.outcome machine.pc = .ok target) ∧
    (∀ failure, (∃ after, step noise machine = .error failure after) ↔
      machine.route.outcome machine.pc = .error failure) := by
  have leads := (reachable_sound reachable).next_outcome noise
  rw [← leads]
  constructor
  · intro target
    simp only [step_eq_ok_iff]
    cases machine.next noise <;> simp [Except.map]
  · intro failure
    simp only [step_eq_error_iff]
    cases machine.next noise <;> simp [Except.map]

/-- A program may jump into the last cell of memory; the step that does so fails. -/
theorem jump_to_last_cell_fails : ∃ machine : Machine, Reachable (fun _ => 0) machine ∧
    ∃ after, step (fun _ => 0) machine = .error (.programCounterOutOfRange 0xFFF) after := by
  have fits : Rom.size ⟨#[0x1F, 0xFF]⟩ ≤ Memory.romLimit := by decide
  rcases Memory.initial.exists_load fits with ⟨memory, copied⟩
  have reachable := reachable_of_load (fun _ => 0) copied
  refine ⟨_, reachable, ((step_follows_route reachable).2 _).mpr ?_⟩
  have word : memory.word programStart = 0x1FFF :=
    @Memory.word_opcode _ _ copied 0 (by decide)
  change (if Opcode.isListed (memory.word programStart) then
    opcodeRoute _ (memory.word programStart) else _).outcome _ = _
  rw [word]
  rfl

end Machine
end Chip8
