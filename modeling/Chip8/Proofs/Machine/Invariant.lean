import Chip8.Proofs.Instruction.Table
import Chip8.Proofs.Machine.Planning

namespace Chip8
namespace Machine

/-!
# What every reachable machine keeps

A machine is sound when its program counter is in range, its stack holds at
most sixteen addresses behind a call, its history holds opcodes that decode,
and, while it waits for a key, the waiting instruction is still in memory at
the program counter and is the newest of the history.

The parts lean on each other.  Return addresses are in range because the
control flow of a call has checked them, and the opcode of a waiting machine is
still there because a waiting machine writes nothing but the awaited register.
Programs may change themselves and run from odd addresses; nothing is assumed
about the memory.
-/

/-! ## Components that an instruction changes -/

theorem effect_stack_of_ne {noise : Noise} {instruction : Instruction} {machine : Machine}
    (notReturn : instruction ≠ .ret) (notCall : ∀ target, instruction ≠ .call target) :
    (effect noise instruction machine).stack = machine.stack := by
  cases instruction with
  | ret => exact absurd rfl notReturn
  | call target => exact absurd rfl (notCall target)
  | awaitKey x => rw [effect_awaitKey]; split <;> rfl
  | _ => rfl

/-- Only the instruction that awaits a key starts to wait, and it does nothing else. -/
theorem effect_of_awaiting {noise : Noise} {instruction : Instruction} {machine : Machine}
    {x : Reg} (active : machine.awaiting = none)
    (waits : (effect noise instruction machine).awaiting = some x) :
    instruction = .awaitKey x ∧ machine.keypad.firstDown = none ∧
      effect noise instruction machine = { machine with awaiting := some x } := by
  cases instruction with
  | ret =>
      rw [effect_ret, active] at waits
      cases waits
  | call target =>
      rw [effect_call] at waits
      split at waits <;> simp [active] at waits
  | awaitKey y =>
      rw [effect_awaitKey] at waits ⊢
      cases down : machine.keypad.firstDown with
      | some key => simp [down, active] at waits
      | none =>
          simp only [down, Option.some.injEq] at waits
          subst waits
          exact ⟨rfl, rfl, rfl⟩
  | _ =>
      change machine.awaiting = some x at waits
      rw [active] at waits
      cases waits

theorem depth_lt_of_isFull_eq_false {stack : CallStack} (room : stack.isFull = false) :
    stack.depth < 16 := by
  exact Nat.lt_of_not_le (of_decide_eq_false room)

/-! ## Soundness -/

structure Sound (machine : Machine) : Prop where
  start : IsStart machine.pc
  depth_le : machine.stack.depth ≤ 16
  return_addresses : ∀ address ∈ machine.stack.newestFirst,
    0x202 ≤ address.toNat ∧ address.toNat ≤ 0xFFE
  history_length_le : machine.history.length ≤ 10
  history_decodes : ∀ executed ∈ machine.history,
    IsStart executed.address ∧ ∃ instruction, Instruction.decode executed.opcode = .ok instruction
  awaiting : ∀ x, machine.awaiting = some x →
    x.val ≤ 0xF ∧ (machine.memory.word machine.pc).toNat = 0xF00A + x.val * 0x100 ∧
      machine.history.getLast? = some ⟨machine.pc, machine.memory.word machine.pc⟩

/-- A machine that has executed nothing since it was reset is sound, whatever
its memory holds. -/
theorem sound_of_fresh {machine : Machine} (pc : machine.pc = programStart)
    (stack : machine.stack = CallStack.empty) (active : machine.awaiting = none)
    (recent : machine.recent = []) : Sound machine where
  start := by rw [pc]; decide
  depth_le := by rw [stack]; decide
  return_addresses := by rw [stack]; intro address member; cases member
  history_length_le := by rw [history, recent]; decide
  history_decodes := by rw [history, recent]; intro executed member; cases member
  awaiting := by intro x waits; rw [active] at waits; cases waits

/-- Soundness says nothing about registers, timers, screen, keypad and random numbers. -/
theorem Sound.congr {machine other : Machine} (sound : Sound machine)
    (memory : other.memory = machine.memory) (pc : other.pc = machine.pc)
    (stack : other.stack = machine.stack) (awaiting : other.awaiting = machine.awaiting)
    (recent : other.recent = machine.recent) : Sound other := by
  rcases sound with
    ⟨start, depth_le, return_addresses, history_length_le, history_decodes, waiting⟩
  unfold history at *
  constructor <;> simpa only [history, memory, pc, stack, awaiting, recent]

/-- Each instruction keeps the stack in order.  A call adds an address that its
control flow has checked, and a return only takes one away. -/
theorem Sound.effect_stack {machine : Machine} {instruction : Instruction} {course : Flow}
    (sound : Sound machine) (noise : Noise)
    (permitted : machine.flow instruction = .ok course) :
    (effect noise instruction machine).stack.depth ≤ 16 ∧
      ∀ address ∈ (effect noise instruction machine).stack.newestFirst,
        0x202 ≤ address.toNat ∧ address.toNat ≤ 0xFFE := by
  by_cases returns : instruction = .ret
  · subst returns
    rw [effect_ret]
    refine ⟨?_, fun address member => sound.return_addresses address (List.mem_of_mem_tail member)⟩
    have bound := sound.depth_le
    simp only [CallStack.depth, List.length_tail] at bound ⊢
    omega
  by_cases calls : ∃ target, instruction = .call target
  · rcases calls with ⟨target, rfl⟩
    rcases permitted_call permitted with ⟨behind, room⟩
    have free := depth_lt_of_isFull_eq_false room
    simp only [effect_call, room, Bool.false_eq_true, if_false]
    refine ⟨free, ?_⟩
    intro address member
    rcases List.mem_cons.mp member with new | old
    · subst new
      have lower := sound.start.1
      refine ⟨?_, behind.2⟩
      rw [sound.start.toNat_add_two]
      exact Nat.add_le_add_right lower 2
    · exact sound.return_addresses address old
  · rw [effect_stack_of_ne returns (fun target equal => calls ⟨target, equal⟩)]
    exact ⟨sound.depth_le, sound.return_addresses⟩

/-- A completed plan ends in range, and its instruction is the newest of the history. -/
theorem Sound.complete {noise : Noise} {machine : Machine} {plan : Plan}
    (sound : Sound machine) (active : machine.awaiting = none) (permits : Permits machine plan) :
    Sound (complete noise plan machine) := by
  rcases permits with ⟨start, opcode_eq, decoded, ⟨course, permitted, target_eq⟩, target_start⟩
  rcases sound.effect_stack noise permitted with ⟨depth_le, return_addresses⟩
  refine { start := ?_, depth_le, return_addresses, history_length_le := ?_,
           history_decodes := ?_, awaiting := ?_ }
  · change IsStart (plan.target.getD machine.pc)
    cases target : plan.target with
    | none => exact sound.start
    | some address => exact target_start address target
  · rw [history, List.length_reverse]
    exact List.length_take_le _ _
  · intro executed member
    have recent := List.mem_of_mem_take (List.mem_reverse.mp member)
    rcases List.mem_cons.mp recent with newest | earlier
    · subst newest
      exact ⟨start, plan.instruction, decoded⟩
    · exact sound.history_decodes executed (List.mem_reverse.mpr earlier)
  · intro x waits
    rcases effect_of_awaiting active waits with ⟨awaits, idle, same⟩
    have stays : plan.target = none := by
      rw [awaits] at permitted
      simp only [flow, idle, Option.isNone_none, if_true] at permitted
      cases permitted
      exact target_eq
    have unmoved : (Machine.complete noise plan machine).pc = machine.pc := by
      simp [Machine.complete, stays]
    have unwritten : (Machine.complete noise plan machine).memory = machine.memory := by
      simp [Machine.complete, same]
    have word : (machine.memory.word machine.pc).toNat = 0xF00A + x.val * 0x100 := by
      rw [← opcode_eq, ← Instruction.opcode_of_decode decoded, awaits]
      exact Instruction.toNat_opcode_awaitKey x
    rw [unmoved, unwritten]
    refine ⟨Nat.le_of_lt_succ x.isLt, word, ?_⟩
    simp [history, Machine.complete, historyCapacity, opcode_eq]

/-! ## Operations -/

theorem Sound.step {machine : Machine} (sound : Sound machine) (noise : Noise) :
    Sound (reached (step noise machine)) := by
  cases stepped : Machine.step noise machine with
  | error failure after =>
      rcases step_eq_error_iff.mp stepped with ⟨_, same⟩
      subst same
      exact sound
  | ok _ after =>
      cases progress_of_step stepped with
      | wait awaiting idle => exact sound
      | complete active permits => exact sound.complete active permits
      | receive awaiting down start =>
          exact {
            start
            depth_le := sound.depth_le
            return_addresses := sound.return_addresses
            history_length_le := sound.history_length_le
            history_decodes := sound.history_decodes
            awaiting := by intro x waits; cases waits }

/-- By induction on the number of steps: a run that stops early ends in the
state of a step. -/
theorem Sound.run {noise : Noise} {machine : Machine} (sound : Sound machine) (count : Nat) :
    Sound (reached (run noise count machine)) := by
  induction count generalizing machine with
  | zero => exact sound
  | succ count ih =>
      have stepped := sound.step noise
      rw [run_succ]
      cases result : Machine.step noise machine with
      | error failure after => rwa [result] at stepped
      | ok _ after =>
          rw [result] at stepped
          exact ih stepped

/-- Loading resets first, so also a program that is too large leaves a sound machine. -/
theorem sound_load (rom : Rom) (machine : Machine) : Sound (reached (load rom machine)) := by
  rw [load_run]
  cases Memory.initial.load rom <;> exact sound_of_fresh rfl rfl rfl rfl

theorem ofResult_snd (reply : Reply) (result : EStateM.Result Error Machine Unit) :
    (Reply.ofResult reply result).2 = reached result := by
  cases result <;> rfl

/-- Every operation, whether or not it succeeds, keeps a machine sound. -/
theorem Sound.perform {noise : Noise} {machine : Machine} (sound : Sound machine)
    (operation : Operation) : Sound (operation.perform noise machine).2 := by
  cases operation with
  | reset =>
      rw [Operation.perform, ofResult_snd]
      exact sound_of_fresh rfl rfl rfl rfl
  | load rom =>
      rw [Operation.perform, ofResult_snd]
      exact sound_load rom machine
  | step =>
      rw [Operation.perform, ofResult_snd]
      exact sound.step noise
  | run count =>
      rw [Operation.perform, ofResult_snd]
      exact sound.run count
  | tick | setKey key pressed | releaseKeys | takeRedraw =>
      exact sound.congr rfl rfl rfl rfl rfl

theorem reachable_sound {noise : Noise} {machine : Machine}
    (reachable : Reachable noise machine) : Sound machine := by
  induction reachable with
  | initial => exact sound_of_fresh rfl rfl rfl rfl
  | perform operation _ sound => exact sound.perform operation

theorem Reachable.stateAfter {noise : Noise} {machine : Machine}
    (reachable : Reachable noise machine) (operations : List Operation) :
    Reachable noise (Operation.stateAfter noise operations machine) := by
  induction operations generalizing machine with
  | nil => exact reachable
  | cons operation rest ih => exact ih (reachable.perform operation)

/-- A new machine with a program in its memory is reachable. -/
theorem reachable_of_load (noise : Noise) {rom : Rom} {memory : Memory}
    (copied : Memory.initial.load rom = .ok memory) :
    Reachable noise { initial with memory } := by
  have loaded : Reachable noise ((Operation.load rom).perform noise initial).2 :=
    Reachable.initial.perform (.load rom)
  rw [Operation.perform, load_run, copied] at loaded
  exact loaded

/-! ## Fetching and returning -/

theorem Sound.fetch {machine : Machine} (sound : Sound machine) :
    machine.fetch = .ok (machine.memory.word machine.pc) :=
  fetch_of_isStart sound.start

/-- A sound machine that waits for a key is at an instruction of the last group. -/
theorem Sound.active_of_identifier_ne {machine : Machine} (sound : Sound machine)
    (other : (machine.memory.word machine.pc).identifier ≠ 0xF) : machine.awaiting = none := by
  cases awaiting : machine.awaiting with
  | none => rfl
  | some x =>
      rcases sound.awaiting x awaiting with ⟨small, word, _⟩
      have first : (machine.memory.word machine.pc).toNat / 0x1000 % 0x10 = 0xF := by omega
      exact absurd (Fin.ext ((Opcode.identifier_val _).trans first)) other

/-- A return goes to an address that a call has checked, so an empty stack is
all that can stop it. -/
theorem Sound.return_failure {noise : Noise} {machine after : Machine} {failure : Error}
    (sound : Sound machine) (word : machine.memory.word machine.pc = 0x00EE)
    (failed : Machine.step noise machine = .error failure after) : failure = .stackUnderflow := by
  have decoded : Instruction.decode (machine.memory.word machine.pc) = .ok .ret := by
    rw [word]
    rfl
  have refused := (step_eq_error_iff.mp failed).1
  have active := sound.active_of_identifier_ne (by rw [word]; decide)
  rw [next, active, plan_eq sound.start, decoded] at refused
  cases addresses : machine.stack.newestFirst with
  | nil =>
      simp only [flow, CallStack.top, addresses] at refused
      cases refused
      rfl
  | cons address rest =>
      rcases sound.return_addresses address (by rw [addresses]; exact .head _) with ⟨lower, upper⟩
      have start : IsStart address := ⟨by omega, upper⟩
      simp only [flow, CallStack.top, addresses] at refused
      change (do
        let plan ← (do
          checkStart address
          return _)
        _) = _ at refused
      rw [checkStart_of_isStart start] at refused
      cases refused

/-- From power-on, every list of operations leads to a sound machine.  There
the opcode can be fetched, and no return leads out of range. -/
theorem stateAfter_initial_sound (noise : Noise) (operations : List Operation) :
    let machine := Operation.stateAfter noise operations initial
    Sound machine ∧
      machine.fetch = .ok (machine.memory.word machine.pc) ∧
      (machine.memory.word machine.pc = 0x00EE → ∀ address after,
        Machine.step noise machine ≠ .error (.programCounterOutOfRange address) after) := by
  intro machine
  have sound : Sound machine := reachable_sound (Reachable.initial.stateAfter operations)
  refine ⟨sound, sound.fetch, ?_⟩
  intro word address after failed
  cases sound.return_failure word failed

end Machine
end Chip8
