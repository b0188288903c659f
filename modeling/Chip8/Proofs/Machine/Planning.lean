import Chip8.Machine.Operation

namespace Chip8
namespace Machine

/-!
# Steps as plans and their completion

Execution is written with actions, which thread the state through every check
and every write.  Its order of events has a consequence that is easier to use:
a step first finds out everything that can go wrong, on a state that it only
reads, and then writes without a chance to fail.

The two halves are separated here.  `plan` reads the state and gives the
instruction with the address where execution goes on, or the error;
`complete` is the state after the plan has been carried out.  `next` joins
them with the look at the keypad of a waiting machine, and `step_eq` says that
a step is `next` and nothing else.  What a step does to a component is
therefore a question about `complete`, and what can make it fail is a question
about `plan`.
-/

/-! ## Addresses from which an opcode can be fetched -/

/-- The range of the program counter. -/
def IsStart (address : UInt16) : Prop :=
  0x200 ≤ address.toNat ∧ address.toNat ≤ 0xFFE

instance (address : UInt16) : Decidable (IsStart address) :=
  inferInstanceAs (Decidable (_ ∧ _))

theorem checkStart_eq (address : UInt16) :
    checkStart address =
      if IsStart address then .ok () else .error (.programCounterOutOfRange address) := by
  unfold checkStart IsStart
  simp only [UInt16.le_iff_toNat_le]
  rfl

theorem checkStart_of_isStart {address : UInt16} (start : IsStart address) :
    checkStart address = .ok () := by
  rw [checkStart_eq, if_pos start]

theorem isStart_of_checkStart {address : UInt16} (checked : checkStart address = .ok ()) :
    IsStart address := by
  rw [checkStart_eq] at checked
  by_cases start : IsStart address
  · exact start
  · rw [if_neg start] at checked
    cases checked

/-- The range ends far below the last word, so nearby addresses do not wrap. -/
theorem IsStart.toNat_add {address distance : UInt16} (start : IsStart address)
    (near : distance.toNat < 0x1000) :
    (address + distance).toNat = address.toNat + distance.toNat := by
  have upper := start.2
  rw [UInt16.toNat_add]
  omega

theorem IsStart.toNat_add_two {address : UInt16} (start : IsStart address) :
    (address + 2).toNat = address.toNat + 2 :=
  start.toNat_add (by decide)

/-- Going on is refused only at the end of memory. -/
theorem IsStart.checkStart_add_two {address : UInt16} (start : IsStart address) :
    checkStart (address + 2) =
      if address.toNat + 2 ≤ 0xFFE then .ok ()
      else .error (.programCounterOutOfRange (address + 2)) := by
  have same : IsStart (address + 2) ↔ address.toNat + 2 ≤ 0xFFE := by
    have lower := start.1
    rw [IsStart, start.toNat_add_two]
    omega
  rw [checkStart_eq]
  simp only [same]

theorem IsStart.toNat_add_four {address : UInt16} (start : IsStart address) :
    (address + 4).toNat = address.toNat + 4 :=
  start.toNat_add (by decide)

/-! ## Running actions -/

/-- Peels the first answer off an answer that succeeded. -/
theorem ok_of_bind {ε α β : Type} {answer : Except ε α} {rest : α → Except ε β} {result : β}
    (succeeded : answer >>= rest = .ok result) :
    ∃ value, answer = .ok value ∧ rest value = .ok result := by
  cases answer with
  | error failure => cases succeeded
  | ok value => exact ⟨value, rfl, succeeded⟩

theorem bind_run {α β : Type} (action : Action α) (rest : α → Action β) (machine : Machine) :
    (action >>= rest) machine =
      match action machine with
      | .ok answer reached => rest answer reached
      | .error failure reached => .error failure reached := by
  change EStateM.bind action rest machine = _
  unfold EStateM.bind
  cases action machine <;> rfl

theorem ofExcept_run {α : Type} (answer : Except Error α) (machine : Machine) :
    (MonadExcept.ofExcept answer : Action α) machine =
      match answer with
      | .ok value => .ok value machine
      | .error failure => .error failure machine := by
  cases answer <;> rfl

theorem inspect_run {α : Type} (question : Machine → Except Error α) (machine : Machine) :
    inspect question machine =
      match question machine with
      | .ok value => .ok value machine
      | .error failure => .error failure machine :=
  ofExcept_run (question machine) machine

theorem goTo_run (address : UInt16) (machine : Machine) :
    goTo address machine =
      match checkStart address with
      | .ok _ => .ok () { machine with pc := address }
      | .error failure => .error failure machine := by
  unfold goTo
  rw [bind_run, ofExcept_run]
  cases checkStart address <;> rfl

theorem get_run (machine : Machine) : (get : Action Machine) machine = .ok machine machine := by
  rfl

theorem modify_run (change : Machine → Machine) (machine : Machine) :
    (modify change : Action Unit) machine = .ok () (change machine) := by
  rfl

/-- Loading starts from the memory of a new machine and keeps only the count of
random numbers. -/
theorem load_run (rom : Rom) (machine : Machine) :
    load rom machine =
      match Memory.initial.load rom with
      | .ok memory => .ok () { initial with memory, drawn := machine.drawn }
      | .error failure => .error failure { initial with drawn := machine.drawn } := by
  have blank : initial.memory = Memory.initial := rfl
  simp only [load, reset, bind_run, modify_run, inspect_run, blank]
  cases Memory.initial.load rom <;> rfl

/-- The state that an action has reached, whether or not it succeeded. -/
def reached {α : Type} : EStateM.Result Error Machine α → Machine
  | .ok _ machine => machine
  | .error _ machine => machine

/-! ## Effects of instructions -/

/-- The state after an instruction was carried out, apart from the program
counter and the history. -/
def effect (noise : Noise) (instruction : Instruction) (machine : Machine) : Machine :=
  reached (execute noise instruction machine)

/-- A call is permitted when its return address is one to go on at and fits on the stack. -/
theorem permitted_call {machine : Machine} {target : Address} {course : Flow}
    (permitted : machine.flow (.call target) = .ok course) :
    IsStart (machine.pc + 2) ∧ machine.stack.isFull = false := by
  rcases ok_of_bind permitted with ⟨_, checked, permitted⟩
  refine ⟨isStart_of_checkStart checked, ?_⟩
  cases full : machine.stack.isFull with
  | false => rfl
  | true =>
      rw [full] at permitted
      cases permitted

/-- Only returns and calls can fail, and the control flow that precedes them
has already made sure that they do not. -/
theorem execute_eq_effect (noise : Noise) {instruction : Instruction} {machine : Machine}
    {course : Flow} (permitted : machine.flow instruction = .ok course) :
    execute noise instruction machine = .ok () (effect noise instruction machine) := by
  cases instruction with
  | ret =>
      rcases machine with ⟨memory, pc, index, ⟨addresses⟩, _⟩
      cases addresses with
      | nil => cases permitted
      | cons address rest => rfl
  | call target =>
      have room := (permitted_call permitted).2
      have pushed : machine.stack.push (machine.pc + 2) =
          .ok ⟨(machine.pc + 2) :: machine.stack.newestFirst⟩ := by
        simp [CallStack.push, room]
      simp only [effect, execute, pushReturn, bind_run, inspect_run, get_run, pushed]
      rfl
  | _ => rfl

theorem effect_ret (noise : Noise) (machine : Machine) :
    effect noise .ret machine =
      { machine with stack := ⟨machine.stack.newestFirst.tail⟩ } := by
  rcases machine with ⟨memory, pc, index, ⟨addresses⟩, _⟩
  cases addresses <;> rfl

theorem effect_call (noise : Noise) (target : Address) (machine : Machine) :
    effect noise (.call target) machine =
      if machine.stack.isFull then machine
      else { machine with stack := ⟨(machine.pc + 2) :: machine.stack.newestFirst⟩ } := by
  cases full : machine.stack.isFull <;>
    simp [effect, execute, pushReturn, bind_run, inspect_run, get_run, CallStack.push, full,
      reached, modify_run]

theorem effect_awaitKey (noise : Noise) (x : Reg) (machine : Machine) :
    effect noise (.awaitKey x) machine =
      match machine.keypad.firstDown with
      | some key => { machine with registers := machine.registers.set x (UInt8.ofNat key) }
      | none => { machine with awaiting := some x } := by
  rfl

/-- No instruction moves the program counter by itself. -/
theorem effect_pc (noise : Noise) (instruction : Instruction) (machine : Machine) :
    (effect noise instruction machine).pc = machine.pc := by
  cases instruction with
  | ret => rw [effect_ret]
  | call target => rw [effect_call]; split <;> rfl
  | awaitKey x => rw [effect_awaitKey]; split <;> rfl
  | _ => rfl

theorem effect_recent (noise : Noise) (instruction : Instruction) (machine : Machine) :
    (effect noise instruction machine).recent = machine.recent := by
  cases instruction with
  | ret => rw [effect_ret]
  | call target => rw [effect_call]; split <;> rfl
  | awaitKey x => rw [effect_awaitKey]; split <;> rfl
  | _ => rfl

/-! ## Plans -/

/-- What a cycle knows before it writes: the opcode, its instruction, and the
address where execution goes on, if it does not stay. -/
structure Plan where
  opcode : Opcode
  instruction : Instruction
  target : Option UInt16

/-- Refuses a target outside the range of the program counter. -/
def checkTarget : Option UInt16 → Except Error Unit
  | none => .ok ()
  | some target => checkStart target

/-- Everything in a cycle that reads and may refuse. -/
def plan (machine : Machine) : Except Error Plan := do
  let (opcode, instruction) ← machine.fetchDecode
  let flow ← machine.flow instruction
  let target := flow.target? machine.pc
  checkTarget target
  return { opcode, instruction, target }

/-- A plan depends on what is fetched and on what control flow looks at. -/
theorem plan_congr {machine other : Machine} (memory : other.memory = machine.memory)
    (pc : other.pc = machine.pc) (stack : other.stack = machine.stack)
    (registers : other.registers = machine.registers) (keypad : other.keypad = machine.keypad) :
    other.plan = machine.plan := by
  have permitted (instruction : Instruction) :
      other.flow instruction = machine.flow instruction := by
    cases instruction <;> simp only [flow, pc, stack, registers, keypad]
  unfold plan fetchDecode fetch
  simp only [memory, pc, permitted]

/-- What holds of a machine that has a plan. -/
structure Permits (machine : Machine) (plan : Plan) : Prop where
  start : IsStart machine.pc
  opcode_eq : plan.opcode = machine.memory.word machine.pc
  decoded : Instruction.decode plan.opcode = .ok plan.instruction
  course : ∃ course, machine.flow plan.instruction = .ok course ∧
    plan.target = course.target? machine.pc
  target_start : ∀ target, plan.target = some target → IsStart target

/-- Everything in a cycle that writes. -/
def complete (noise : Noise) (plan : Plan) (machine : Machine) : Machine :=
  { effect noise plan.instruction machine with
    pc := plan.target.getD machine.pc
    recent := (⟨machine.pc, plan.opcode⟩ :: machine.recent).take historyCapacity }

/-- What a waiting machine does when a key is down. -/
def receive (x : Reg) (key : Key) (machine : Machine) : Machine :=
  { machine with
    pc := machine.pc + 2
    registers := machine.registers.set x (UInt8.ofNat key)
    awaiting := none }

/-- The state after a step, or the error of the step. -/
def next (noise : Noise) (machine : Machine) : Except Error Machine :=
  match machine.awaiting with
  | some x =>
      match machine.keypad.firstDown with
      | none => .ok machine
      | some key => do
          checkStart (machine.pc + 2)
          return machine.receive x key
  | none => do
      return complete noise (← machine.plan) machine

/-- An answer as the result of an action that leaves the state alone when it fails. -/
def settle (machine : Machine) : Except Error Machine → EStateM.Result Error Machine Unit
  | .ok after => .ok () after
  | .error failure => .error failure machine

/-! ## Steps -/

/-- A cycle is its plan followed by its completion. -/
theorem cycle_eq (noise : Noise) (machine : Machine) :
    cycle noise machine = settle machine (do return complete noise (← machine.plan) machine) := by
  unfold cycle plan
  simp only [bind_run, get_run, inspect_run]
  cases fetched : machine.fetchDecode with
  | error failure => rfl
  | ok found =>
      rcases found with ⟨opcode, instruction⟩
      cases permitted : machine.flow instruction with
      | error failure =>
          simp only [bind, Except.bind, permitted]
          rfl
      | ok course =>
          have executed := execute_eq_effect noise permitted
          cases target : course.target? machine.pc with
          | none =>
              simp only [bind, EStateM.bind, Except.bind, permitted, target, checkTarget, executed]
              simp only [remember, modify_run, effect_recent, settle, pure, Except.pure, complete,
                Option.getD_none, ← effect_pc noise instruction machine]
          | some address =>
              cases checked : checkStart address with
              | error failure =>
                  simp only [bind, EStateM.bind, Except.bind, permitted, target, checkTarget,
                    ofExcept_run, checked]
                  rfl
              | ok _ =>
                  simp only [bind, EStateM.bind, Except.bind, permitted, target, checkTarget,
                    ofExcept_run, checked, executed, goTo_run]
                  simp only [remember, modify_run, effect_recent, settle, pure, Except.pure,
                    complete, Option.getD_some]

theorem pollKey_eq (x : Reg) (machine : Machine) :
    pollKey x machine =
      settle machine (match machine.keypad.firstDown with
        | none => .ok machine
        | some key => do
            checkStart (machine.pc + 2)
            return machine.receive x key) := by
  unfold pollKey
  simp only [bind_run, get_run]
  cases machine.keypad.firstDown with
  | none => rfl
  | some key =>
      simp only [bind_run, advance, get_run, goTo_run]
      cases checkStart (machine.pc + 2) <;> rfl

/-- A step does nothing but settle what comes next. -/
theorem step_eq (noise : Noise) (machine : Machine) :
    step noise machine = settle machine (machine.next noise) := by
  unfold step next
  simp only [bind_run, get_run]
  cases machine.awaiting with
  | none => exact cycle_eq noise machine
  | some x => exact pollKey_eq x machine

theorem step_eq_ok_iff {noise : Noise} {machine after : Machine} :
    step noise machine = .ok () after ↔ machine.next noise = .ok after := by
  rw [step_eq]
  cases machine.next noise <;> simp [settle]

theorem step_eq_error_iff {noise : Noise} {machine after : Machine} {failure : Error} :
    step noise machine = .error failure after ↔
      machine.next noise = .error failure ∧ after = machine := by
  rw [step_eq]
  cases machine.next noise <;> simp [settle, eq_comm]

theorem run_succ (noise : Noise) (count : Nat) (machine : Machine) :
    run noise (count + 1) machine =
      match step noise machine with
      | .ok _ after => run noise count after
      | .error failure after => .error failure after := by
  rw [run, bind_run]
  cases step noise machine <;> rfl

/-- A change that control flow does not see commutes with a step if it commutes
with carrying out what was planned. -/
theorem next_change {change : Machine → Machine} {noise other : Noise} {machine : Machine}
    (awaiting : (change machine).awaiting = machine.awaiting)
    (keypad : (change machine).keypad = machine.keypad) (pc : (change machine).pc = machine.pc)
    (plan : (change machine).plan = machine.plan)
    (received : ∀ x key, (change machine).receive x key = change (machine.receive x key))
    (completed : ∀ plan, machine.awaiting = none → machine.plan = .ok plan →
      complete noise plan (change machine) = change (complete other plan machine)) :
    (change machine).next noise = (machine.next other).map change := by
  unfold next
  rw [awaiting, keypad, pc, plan]
  cases active : machine.awaiting with
  | some x =>
      cases machine.keypad.firstDown with
      | none => rfl
      | some key =>
          cases checkStart (machine.pc + 2) with
          | error failure => rfl
          | ok _ => exact congrArg Except.ok (received x key)
  | none =>
      cases planned : machine.plan with
      | error failure => rfl
      | ok plan => exact congrArg Except.ok (completed plan active planned)

/-! ## What a successful step has done -/

theorem fetch_eq (machine : Machine) :
    machine.fetch =
      if IsStart machine.pc then .ok (machine.memory.word machine.pc)
      else .error (.programCounterOutOfRange machine.pc) := by
  unfold fetch
  rw [checkStart_eq]
  split <;> rfl

theorem fetch_of_isStart {machine : Machine} (start : IsStart machine.pc) :
    machine.fetch = .ok (machine.memory.word machine.pc) := by
  rw [fetch_eq, if_pos start]

/-- In range, a plan fails only through its opcode, its control flow or its target. -/
theorem plan_eq {machine : Machine} (start : IsStart machine.pc) :
    machine.plan =
      match Instruction.decode (machine.memory.word machine.pc) with
      | .error failure => .error failure
      | .ok instruction =>
          match machine.flow instruction with
          | .error failure => .error failure
          | .ok course => do
              checkTarget (course.target? machine.pc)
              return ⟨machine.memory.word machine.pc, instruction, course.target? machine.pc⟩ := by
  unfold plan fetchDecode
  rw [fetch_of_isStart start]
  cases decoded : Instruction.decode (machine.memory.word machine.pc) with
  | error failure => simp only [bind, Except.bind, decoded]
  | ok instruction =>
      cases permitted : machine.flow instruction <;>
        simp only [bind, Except.bind, pure, Except.pure, decoded, permitted]

theorem permits_of_plan {machine : Machine} {plan : Plan} (planned : machine.plan = .ok plan) :
    Permits machine plan := by
  unfold Machine.plan fetchDecode at planned
  rcases ok_of_bind planned with ⟨⟨opcode, instruction⟩, read, planned⟩
  rcases ok_of_bind planned with ⟨course, permitted, planned⟩
  rcases ok_of_bind planned with ⟨_, checked, planned⟩
  rcases ok_of_bind read with ⟨fetched, found, read⟩
  rcases ok_of_bind read with ⟨decoding, decoded, read⟩
  cases read
  cases planned
  rw [fetch_eq] at found
  by_cases start : IsStart machine.pc
  · rw [if_pos start] at found
    cases found
    refine ⟨start, rfl, decoded, ⟨course, permitted, rfl⟩, ?_⟩
    intro target selected
    change course.target? machine.pc = some target at selected
    rw [selected] at checked
    exact isStart_of_checkStart checked
  · rw [if_neg start] at found
    cases found

theorem plan_of_permits {machine : Machine} {plan : Plan} (permits : Permits machine plan) :
    machine.plan = .ok plan := by
  rcases plan with ⟨opcode, instruction, target⟩
  rcases permits with ⟨start, rfl, decoded, ⟨course, permitted, rfl⟩, target_start⟩
  rw [plan_eq start]
  simp only [decoded, permitted]
  cases selected : course.target? machine.pc with
  | none => rfl
  | some address =>
      rw [checkTarget, checkStart_of_isStart (target_start address selected)]
      rfl

/-- A machine that does not wait completes the plan it has. -/
theorem step_of_permits (noise : Noise) {machine : Machine} {plan : Plan}
    (active : machine.awaiting = none) (permits : Permits machine plan) :
    step noise machine = .ok () (complete noise plan machine) := by
  rw [step_eq_ok_iff, next, active, plan_of_permits permits]
  rfl

/-- The three ways in which a step succeeds. -/
inductive Progress (noise : Noise) (machine : Machine) : Machine → Prop
  | wait {x : Reg} (awaiting : machine.awaiting = some x)
      (idle : machine.keypad.firstDown = none) : Progress noise machine machine
  | receive {x : Reg} {key : Key} (awaiting : machine.awaiting = some x)
      (down : machine.keypad.firstDown = some key) (start : IsStart (machine.pc + 2)) :
      Progress noise machine (machine.receive x key)
  | complete {plan : Plan} (active : machine.awaiting = none) (permits : Permits machine plan) :
      Progress noise machine (complete noise plan machine)

theorem progress_of_step {noise : Noise} {machine after : Machine}
    (stepped : step noise machine = .ok () after) : Progress noise machine after := by
  have came := step_eq_ok_iff.mp stepped
  unfold next at came
  cases awaiting : machine.awaiting with
  | none =>
      rw [awaiting] at came
      rcases ok_of_bind came with ⟨plan, planned, came⟩
      cases came
      exact .complete awaiting (permits_of_plan planned)
  | some x =>
      rw [awaiting] at came
      cases down : machine.keypad.firstDown with
      | none =>
          rw [down] at came
          cases came
          exact .wait awaiting down
      | some key =>
          rw [down] at came
          rcases ok_of_bind came with ⟨_, checked, came⟩
          cases came
          exact .receive awaiting down (isStart_of_checkStart checked)

/-- A successful step at an opcode that decodes carries its instruction out. -/
theorem complete_of_step {noise : Noise} {machine after : Machine} {instruction : Instruction}
    (active : machine.awaiting = none)
    (decoded : Instruction.decode (machine.memory.word machine.pc) = .ok instruction)
    (stepped : step noise machine = .ok () after) :
    ∃ plan, Permits machine plan ∧ plan.instruction = instruction ∧
      after = Machine.complete noise plan machine := by
  cases progress_of_step stepped with
  | wait awaiting idle => cases active.symm.trans awaiting
  | receive awaiting down start => cases active.symm.trans awaiting
  | @complete plan _ permits =>
      refine ⟨plan, permits, ?_, rfl⟩
      have again := permits.decoded
      rw [permits.opcode_eq, decoded] at again
      cases again
      rfl

end Machine
end Chip8
