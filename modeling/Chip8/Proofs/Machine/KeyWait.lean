import Chip8.Proofs.Keypad.Assignment
import Chip8.Proofs.Machine.ControlFlow
import Chip8.Proofs.Machine.Timing

namespace Chip8

/-!
# Waiting for a key

The instruction that awaits a key is carried out in one of two ways.  When a key
is down already, it is an ordinary cycle.  When none is, the machine remembers
the register and stays; from then on a step only looks at the keypad, and the
first one that finds a key down finishes the instruction.

Both ways lead to the same machine, however long the wait was and whenever
timer periods passed, and at the end of memory both fail alike: there the wait
can begin but never end.
-/

theorem Operation.allUnhurried_settings {noise : Noise} {machine : Machine} (keypad : Keypad) :
    AllUnhurried noise keypad.settings machine := by
  unfold Keypad.settings
  induction List.finRange 16 generalizing machine with
  | nil => trivial
  | cons key rest ih => exact ⟨unhurried_setKey _ _, ih⟩

namespace Machine

variable {noise : Noise} {machine : Machine} {x : Reg} {key : Key}

/-- The newest instructions, once that at the program counter is executed. -/
def extended (machine : Machine) : List Executed :=
  (⟨machine.pc, machine.memory.word machine.pc⟩ :: machine.recent).take historyCapacity

/-- The machine after the wait has begun. -/
def hold (x : Reg) (machine : Machine) : Machine :=
  { machine with awaiting := some x, recent := machine.extended }

/-- The machine after a key was found down. -/
def take (x : Reg) (key : Key) (machine : Machine) : Machine :=
  { machine with
    pc := machine.pc + 2
    registers := machine.registers.set x (UInt8.ofNat key)
    recent := machine.extended }

/-- The next step carries out the instruction that awaits a key in a register. -/
structure AtAwait (machine : Machine) (x : Reg) : Prop where
  start : IsStart machine.pc
  active : machine.awaiting = none
  word : machine.memory.word machine.pc = (Instruction.awaitKey x).opcode

theorem AtAwait.decoded (ready : AtAwait machine x) :
    Instruction.decode (machine.memory.word machine.pc) = .ok (.awaitKey x) := by
  rw [ready.word, Instruction.decode_eq_ok_iff]
  exact Instruction.ofOpcode?_opcode trivial

theorem AtAwait.untimed (ready : AtAwait machine x) : Untimed machine := by
  refine .inr fun instruction decoded uses => ?_
  rw [ready.decoded] at decoded
  cases decoded
  exact uses

/-! ## Steps -/

theorem AtAwait.step_idle (ready : AtAwait machine x) (noise : Noise)
    (idle : machine.keypad.firstDown = none) :
    step noise machine = .ok () (machine.hold x) := by
  have permits : Permits machine ⟨machine.memory.word machine.pc, .awaitKey x, none⟩ := {
    start := ready.start
    opcode_eq := rfl
    decoded := ready.decoded
    course := ⟨.hold, by simp [flow, idle, pure, Except.pure], rfl⟩
    target_start := by rintro target ⟨⟩ }
  rw [step_of_permits noise ready.active permits, complete, effect_awaitKey, idle]
  rfl

theorem step_waiting_idle (waits : machine.awaiting = some x)
    (idle : machine.keypad.firstDown = none) : step noise machine = .ok () machine := by
  rw [step_eq_ok_iff, next, waits]
  simp only [idle]

theorem AtAwait.step_down (ready : AtAwait machine x) (noise : Noise)
    (down : machine.keypad.firstDown = some key) :
    step noise machine = settle machine (do
      checkStart (machine.pc + 2)
      return machine.take x key) := by
  rw [step_eq, next, ready.active, plan_eq ready.start, ready.decoded]
  simp only [flow, down, Option.isNone_some, Bool.false_eq_true, if_false]
  change settle machine (do
    let plan ← (do
      checkStart (machine.pc + 2)
      return Plan.mk _ _ (some (machine.pc + 2)))
    return complete noise plan machine) = _
  cases checkStart (machine.pc + 2) with
  | error failure => rfl
  | ok _ =>
      change EStateM.Result.ok () (complete noise _ machine) = .ok () _
      rw [complete, effect_awaitKey, down]
      rfl

theorem step_waiting_down (waits : machine.awaiting = some x)
    (down : machine.keypad.firstDown = some key) :
    step noise machine = settle machine (do
      checkStart (machine.pc + 2)
      return machine.receive x key) := by
  rw [step_eq, next, waits]
  simp only [down]

/-! ## Waits of any length -/

theorem stateAfter_steps_waiting (waits : machine.awaiting = some x)
    (idle : machine.keypad.firstDown = none) (count : Nat) :
    Operation.stateAfter noise (List.replicate count .step) machine = machine := by
  induction count with
  | zero => rfl
  | succ count ih =>
      change Operation.stateAfter noise (List.replicate count .step)
        (Operation.step.perform noise machine).2 = machine
      rw [Operation.perform, step_waiting_idle waits idle]
      exact ih

theorem AtAwait.stateAfter_steps (ready : AtAwait machine x) (noise : Noise)
    (idle : machine.keypad.firstDown = none) (count : Nat) :
    Operation.stateAfter noise (List.replicate (count + 1) .step) machine = machine.hold x := by
  change Operation.stateAfter noise (List.replicate count .step)
    (Operation.step.perform noise machine).2 = machine.hold x
  rw [Operation.perform, ready.step_idle noise idle]
  exact @stateAfter_steps_waiting noise (machine.hold x) x rfl idle count

theorem allUnhurried_steps_waiting (waits : machine.awaiting = some x)
    (idle : machine.keypad.firstDown = none) (count : Nat) :
    Operation.AllUnhurried noise (List.replicate count .step) machine := by
  induction count with
  | zero => trivial
  | succ count ih =>
      refine ⟨Operation.unhurried_step (Untimed.spares (.inl (by simp [waits]))), ?_⟩
      rw [Operation.perform, step_waiting_idle waits idle]
      exact ih

theorem AtAwait.allUnhurried_steps (ready : AtAwait machine x) (noise : Noise)
    (idle : machine.keypad.firstDown = none) (count : Nat) :
    Operation.AllUnhurried noise (List.replicate count .step) machine := by
  cases count with
  | zero => trivial
  | succ count =>
      refine ⟨Operation.unhurried_step ready.untimed.spares, ?_⟩
      rw [Operation.perform, ready.step_idle noise idle]
      exact @allUnhurried_steps_waiting noise (machine.hold x) x rfl idle count

theorem AtAwait.tickTimes (ready : AtAwait machine x) (count : Nat) :
    AtAwait (machine.tickTimes count) x where
  start := (read_tickTimes pc (fun _ => rfl) machine count).symm ▸ ready.start
  active := (read_tickTimes Machine.awaiting (fun _ => rfl) machine count).trans
    ready.active
  word := (read_tickTimes (fun machine => machine.memory.word machine.pc)
    (fun _ => rfl) machine count).trans ready.word

/-- While a machine waits, the first step begins the wait and the others change
nothing, however many periods pass between them. -/
theorem AtAwait.step_within (ready : AtAwait machine x) (noise : Noise)
    (idle : machine.keypad.firstDown = none) {waiting earlier rest : List Operation} {count : Nat}
    (waits : Operation.untimed waiting = List.replicate count .step)
    (split : waiting = earlier ++ .step :: rest) :
    let now := Operation.stateAfter noise earlier machine
    step noise now = .ok () (if .step ∈ earlier then now else now.hold x) := by
  intro now
  rw [split, Operation.untimed, List.filter_append, List.append_eq_replicate_iff] at waits
  have steps : Operation.untimed earlier =
      List.replicate (Operation.untimed earlier).length .step := waits.2.1
  have found : .step ∈ earlier ↔ .step ∈ Operation.untimed earlier := by
    simp [Operation.untimed]
  have came : now = (Operation.stateAfter noise (Operation.untimed earlier) machine).tickTimes
      (earlier.count .tick) := by
    apply Operation.stateAfter_eq_untimed
    rw [steps]
    exact ready.allUnhurried_steps noise idle _
  have released (other : Machine) (same : other.keypad = machine.keypad) :
      (other.tickTimes (earlier.count .tick)).keypad.firstDown = none := by
    rw [read_tickTimes Machine.keypad (fun _ => rfl), same, idle]
  cases length : (Operation.untimed earlier).length with
  | zero =>
      rw [List.length_eq_zero_iff.mp length] at found came
      rw [if_neg fun member => List.not_mem_nil (found.mp member), came]
      exact (ready.tickTimes _).step_idle noise (released machine rfl)
  | succ length =>
      rw [length] at steps
      rw [steps] at found came
      rw [ready.stateAfter_steps noise idle] at came
      rw [if_pos (found.mpr (List.mem_replicate.mpr ⟨Nat.succ_ne_zero _, rfl⟩)), came]
      refine @step_waiting_idle _ _ x ?_ (released (machine.hold x) rfl)
      exact read_tickTimes Machine.awaiting (fun _ => rfl) (machine.hold x) _

/-- After a wait and with its keys set, a machine holds the instruction, and all
the periods that have passed show in the timers alone. -/
theorem AtAwait.stateAfter_wait (ready : AtAwait machine x) (noise : Noise)
    (idle : machine.keypad.firstDown = none) {waiting setting : List Operation} {count : Nat}
    {keypad : Keypad} (positive : 1 ≤ count)
    (waits : Operation.untimed waiting = List.replicate count .step)
    (sets : Operation.untimed setting = keypad.settings) :
    Operation.stateAfter noise (waiting ++ setting) machine =
      ((machine.hold x).withKeypad keypad).tickTimes ((waiting ++ setting).count .tick) := by
  have both : Operation.untimed (waiting ++ setting) =
      List.replicate count .step ++ keypad.settings := by
    rw [Operation.untimed, List.filter_append, ← waits, ← sets]
    rfl
  have unhurried : Operation.AllUnhurried noise (Operation.untimed (waiting ++ setting)) machine := by
    rw [both]
    exact Operation.allUnhurried_append (ready.allUnhurried_steps noise idle count)
      (Operation.allUnhurried_settings keypad)
  rw [Operation.stateAfter_eq_untimed unhurried, both, Operation.stateAfter_append,
    Operation.stateAfter_settings]
  rcases Nat.exists_eq_succ_of_ne_zero (Nat.one_le_iff_ne_zero.mp positive) with ⟨further, rfl⟩
  rw [ready.stateAfter_steps noise idle]

/-! ## The step that ends a wait -/

/-- The step that finds a key after a wait, but for the end of memory. -/
theorem AtAwait.step_after_wait (ready : AtAwait machine x) (noise : Noise)
    (idle : machine.keypad.firstDown = none) {waiting setting : List Operation} {count : Nat}
    {keypad : Keypad} (positive : 1 ≤ count)
    (waits : Operation.untimed waiting = List.replicate count .step)
    (sets : Operation.untimed setting = keypad.settings) (down : keypad.firstDown = some key) :
    let held := Operation.stateAfter noise (waiting ++ setting) machine
    step noise held = settle held (do
      checkStart (machine.pc + 2)
      return ((machine.withKeypad keypad).take x key).tickTimes
        ((waiting ++ setting).count .tick)) := by
  intro held
  let holding := (machine.hold x).withKeypad keypad
  let periods := (waiting ++ setting).count .tick
  have heldEq : held = holding.tickTimes periods :=
    ready.stateAfter_wait noise idle positive waits sets
  have waiting : held.awaiting = some x := by
    rw [heldEq]
    exact read_tickTimes Machine.awaiting (fun _ => rfl) holding periods
  have found : held.keypad.firstDown = some key := by
    rw [heldEq, read_tickTimes Machine.keypad (fun _ => rfl)]
    exact down
  have place : held.pc = machine.pc := by
    rw [heldEq]
    exact read_tickTimes pc (fun _ => rfl) holding periods
  have agree : holding.receive x key = (machine.withKeypad keypad).take x key := by
    simp only [holding, receive, take, hold, withKeypad, ready.active]
    rfl
  have received : held.receive x key =
      ((machine.withKeypad keypad).take x key).tickTimes periods := by
    rw [heldEq, ← agree]
    exact tickTimes_comm (receive x key) (fun _ => rfl) holding periods
  rw [step_waiting_down waiting found, place, received]

/-- The step that finds a key at once, but for the end of memory. -/
theorem AtAwait.step_at_once (ready : AtAwait machine x) (noise : Noise) {keypad : Keypad}
    (down : keypad.firstDown = some key) :
    step noise (machine.withKeypad keypad) = settle (machine.withKeypad keypad) (do
      checkStart (machine.pc + 2)
      return (machine.withKeypad keypad).take x key) := by
  have same : AtAwait (machine.withKeypad keypad) x := ⟨ready.start, ready.active, ready.word⟩
  exact same.step_down noise down

/-- Waiting for a key agrees with finding it down.  While the machine waits, the
first step begins the wait and the others change nothing.  Below the end of
memory, the step that then finds a key leads to the same machine as a step with
the key down in the first place; there, both fail and take nothing. -/
theorem waiting_agrees_with_key_down (reachable : Reachable noise machine)
    (active : machine.awaiting = none) (idle : ¬ machine.keypad.AnyDown)
    (word : machine.memory.word machine.pc = (Instruction.awaitKey x).opcode)
    {count : Nat} (positive : 1 ≤ count) {keypad : Keypad} (pressed : keypad.AnyDown)
    {waiting setting : List Operation}
    (waits : Operation.untimed waiting = List.replicate count .step)
    (sets : Operation.untimed setting = keypad.settings) (later : Nat) :
    let held := Operation.stateAfter noise (waiting ++ setting) machine
    let prepared := Operation.stateAfter noise keypad.settings machine
    (∀ earlier rest, waiting = earlier ++ .step :: rest →
      let now := Operation.stateAfter noise earlier machine
      step noise now = .ok () (if .step ∈ earlier then now else now.hold x)) ∧
    (machine.pc.toNat + 2 ≤ 0xFFE → ∃ key : Key, keypad.down.get key = true ∧
      (∀ lower, lower < key → keypad.down.get lower = false) ∧
      ∃ waited found, step noise held = .ok () waited ∧ step noise prepared = .ok () found ∧
        waited.tickTimes later = found.tickTimes ((waiting ++ setting).count .tick + later) ∧
        found = { machine with
          keypad
          pc := machine.pc + 2
          registers := machine.registers.set x (UInt8.ofNat key)
          recent := machine.extended }) ∧
    (0xFFE < machine.pc.toNat + 2 →
      step noise held = .error (.programCounterOutOfRange (machine.pc + 2)) held ∧
      step noise prepared = .error (.programCounterOutOfRange (machine.pc + 2)) prepared ∧
      held.registers = machine.registers ∧ held.pc = machine.pc ∧
      prepared.registers = machine.registers ∧ prepared.pc = machine.pc) := by
  intro held prepared
  have start := (reachable_sound reachable).start
  have ready : AtAwait machine x := ⟨start, active, word⟩
  have released : machine.keypad.firstDown = none := by
    rw [← Option.not_isSome_iff_eq_none, Keypad.firstDown_isSome_iff]
    exact idle
  rcases Option.isSome_iff_exists.mp (keypad.firstDown_isSome_iff.mpr pressed) with ⟨key, down⟩
  have heldEq : held = _ := ready.stateAfter_wait noise released positive waits sets
  have preparedEq : prepared = machine.withKeypad keypad :=
    Operation.stateAfter_settings noise keypad machine
  have afterWait := ready.step_after_wait noise released positive waits sets down
  have atOnce := ready.step_at_once noise down
  rw [← preparedEq] at atOnce
  refine ⟨fun earlier rest split => ready.step_within noise released waits split, ?_, ?_⟩
  · intro room
    rw [start.checkStart_add_two, if_pos room] at afterWait atOnce
    rcases Keypad.lowest_of_firstDown down with ⟨lit, lowest⟩
    refine ⟨key, lit, lowest, _, _, afterWait, atOnce, ?_, ?_⟩
    · rw [← tickTimes_add, preparedEq]
    · rw [preparedEq]
      rfl
  · intro full
    rw [start.checkStart_add_two, if_neg (Nat.not_le.mpr full)] at afterWait atOnce
    refine ⟨afterWait, atOnce, ?_, ?_, ?_, ?_⟩
    · rw [heldEq]
      exact read_tickTimes registers (fun _ => rfl) _ _
    · rw [heldEq]
      exact read_tickTimes pc (fun _ => rfl) _ _
    · rw [preparedEq]
      rfl
    · rw [preparedEq]
      rfl

/-- A machine that waits at its first opcode takes the key that goes down later,
just as it takes the key when it is down from the start. -/
theorem key_five_is_taken : ∃ machine waited found : Machine, Reachable (fun _ => 0) machine ∧
    let keypad := Keypad.released.set 5 true
    step (fun _ => 0) (Operation.stateAfter (fun _ => 0) ([.step, .tick, .step] ++ keypad.settings)
      machine) = .ok () waited ∧
    step (fun _ => 0) (Operation.stateAfter (fun _ => 0) keypad.settings machine) = .ok () found ∧
    waited.registers.get 0 = 5 ∧ found.registers.get 0 = 5 := by
  have fits : Rom.size ⟨#[0xF0, 0x0A]⟩ ≤ Memory.romLimit := by decide
  rcases Memory.initial.exists_load fits with ⟨memory, copied⟩
  have word : memory.word 0x200 = (Instruction.awaitKey 0).opcode :=
    @Memory.word_opcode _ _ copied 0 (by decide)
  have sets : Operation.untimed (Keypad.released.set 5 true).settings =
      (Keypad.released.set 5 true).settings := by
    decide
  have reachable : Reachable (fun _ => 0) ({ initial with memory } : Machine) :=
    reachable_of_load _ copied
  have idle : ¬ Keypad.released.AnyDown := by decide
  have pressed : (Keypad.released.set 5 true).AnyDown := by decide
  have waits : Operation.untimed [.step, .tick, .step] = List.replicate 2 .step := by decide
  rcases (waiting_agrees_with_key_down reachable rfl idle word (by decide) pressed
    waits sets 0).2.1 (show programStart.toNat + 2 ≤ 0xFFE by decide) with
    ⟨key, down, _, waited, found, afterWait, atOnce, agree, foundEq⟩
  have five : ∀ key : Key, (Keypad.released.set 5 true).down.get key = true → key = 5 := by decide
  cases five key down
  have taken : found.registers.get 0 = 5 := by
    rw [foundEq]
    exact (Registers.get_set _ 0 0 5).trans (if_pos rfl)
  have same : waited.registers = found.registers := by
    rw [show waited = _ from agree]
    exact read_tickTimes registers (fun _ => rfl) found _
  exact ⟨_, waited, found, reachable, afterWait, atOnce, same ▸ taken, taken⟩

end Machine
end Chip8
