import Chip8.Proofs.Machine.Invariant
import Chip8.Proofs.Memory.Ring

namespace Chip8

/-!
# Calls and returns

A call puts the address behind it on the stack.  Nothing but a return takes an
address off, and a return takes the newest one, so the frame of a call stays in
place while nested calls come and go above it.  It ends with a return that
leads behind the call, and the stack is then what it was before.

The memory may change in the meantime, so nothing is assumed about the
instructions of the subroutine.  Steps that fail, because the stack is full or
for any other reason, leave the machine alone.
-/

namespace Operation

/-- The operations that go on with a program: steps, timer periods and keys. -/
inductive Continues : Operation → Prop
  | step : Continues .step
  | tick : Continues .tick
  | setKey (key : UInt8) (pressed : Bool) : Continues (.setKey key pressed)
  | releaseKeys : Continues .releaseKeys

end Operation

namespace Machine

variable {noise : Noise} {machine after called : Machine} {operation : Operation}

/-! ## The stack under one step -/

/-- What a successful step does to the stack: a return pops the address at which
execution goes on, and any other step pushes one address or none. -/
inductive StackMove (machine after : Machine) : Prop
  | keep (same : after.stack = machine.stack)
  | push {address : UInt16} (pushed : after.stack.newestFirst = address :: machine.stack.newestFirst)
  | pop (active : machine.awaiting = none) (word : machine.memory.word machine.pc = 0x00EE)
      (popped : machine.stack.newestFirst = after.pc :: after.stack.newestFirst)

theorem newest_of_flow_ret {course : Flow} (permitted : machine.flow .ret = .ok course) :
    ∃ address rest, machine.stack.newestFirst = address :: rest ∧ course = .jump address := by
  rcases ok_of_bind permitted with ⟨address, newest, jumps⟩
  cases jumps
  unfold CallStack.top at newest
  cases addresses : machine.stack.newestFirst with
  | nil =>
      rw [addresses] at newest
      cases newest
  | cons first rest =>
      rw [addresses] at newest
      cases newest
      exact ⟨address, rest, rfl, rfl⟩

theorem stackMove_of_step (stepped : step noise machine = .ok () after) :
    StackMove machine after := by
  cases progress_of_step stepped with
  | wait awaiting idle => exact .keep rfl
  | receive awaiting down start => exact .keep rfl
  | @complete plan active permits =>
      rcases permits.course with ⟨course, permitted, target⟩
      by_cases returns : plan.instruction = .ret
      · rw [returns] at permitted
        rcases newest_of_flow_ret permitted with ⟨address, rest, addresses, rfl⟩
        have word : machine.memory.word machine.pc = 0x00EE := by
          rw [← permits.opcode_eq, ← Instruction.opcode_of_decode permits.decoded, returns]
          rfl
        refine .pop active word ?_
        rw [complete, returns, effect_ret, target, addresses]
        rfl
      by_cases calls : ∃ target, plan.instruction = .call target
      · rcases calls with ⟨target, calls⟩
        rw [calls] at permitted
        have room := (permitted_call permitted).2
        refine @StackMove.push _ _ (machine.pc + 2) ?_
        simp [complete, calls, effect_call, room]
      · exact .keep (effect_stack_of_ne returns fun target equal => calls ⟨target, equal⟩)

/-- A call that succeeds has pushed the address behind it. -/
theorem stack_of_call (sound : Sound machine)
    (calls : (machine.memory.word machine.pc).identifier = 0x2)
    (stepped : step noise machine = .ok () called) :
    called.stack.newestFirst = (machine.pc + 2) :: machine.stack.newestFirst := by
  have active := sound.active_of_identifier_ne (by rw [calls]; decide)
  have decoded : Instruction.decode (machine.memory.word machine.pc) =
      .ok (.call (machine.memory.word machine.pc).nnn) := by
    rw [Instruction.decode_eq_ok_iff, Instruction.ofOpcode?]
    simp only [calls]
  rcases complete_of_step active decoded stepped with ⟨plan, permits, carries, rfl⟩
  rcases permits.course with ⟨course, permitted, _⟩
  rw [carries] at permitted
  simp [complete, carries, effect_call, (permitted_call permitted).2]

/-! ## Frames -/

/-- The stack holds an older stack, a return address on it, and the addresses of
calls that were made since. -/
def Frame (address : UInt16) (below : CallStack) (machine : Machine) : Prop :=
  ∃ above, machine.stack.newestFirst = above ++ address :: below.newestFirst

variable {address : UInt16} {below : CallStack}

/-- Counted from the bottom, a frame is the older stack followed by its return address. -/
theorem Frame.take_oldestFirst (frame : Frame address below machine) :
    machine.stack.oldestFirst.take (below.depth + 1) = below.oldestFirst ++ [address] := by
  rcases frame with ⟨above, addresses⟩
  have count : below.depth + 1 = (below.oldestFirst ++ [address]).length := by
    simp [CallStack.depth, CallStack.oldestFirst]
  rw [CallStack.oldestFirst, addresses, List.reverse_append, List.reverse_cons, count]
  exact List.take_left

/-- The step that ends a frame. -/
structure Ends (noise : Noise) (address : UInt16) (below : CallStack) (machine after : Machine) :
    Prop where
  active : machine.awaiting = none
  word : machine.memory.word machine.pc = 0x00EE
  stepped : step noise machine = .ok () after
  pc_eq : after.pc = address
  stack_eq : after.stack = below

/-- Whatever goes on, a frame stays in place or ends with its return. -/
theorem Frame.perform (frame : Frame address below machine) (noise : Noise)
    (continues : operation.Continues) :
    Frame address below (operation.perform noise machine).2 ∨
      operation = .step ∧ Ends noise address below machine (operation.perform noise machine).2 := by
  cases continues with
  | tick | setKey key pressed | releaseKeys => exact .inl frame
  | step =>
      rw [Operation.perform, ofResult_snd]
      cases stepped : step noise machine with
      | error failure after =>
          rcases step_eq_error_iff.mp stepped with ⟨_, rfl⟩
          exact .inl frame
      | ok _ after =>
          rcases frame with ⟨above, addresses⟩
          cases stackMove_of_step stepped with
          | keep same => exact .inl ⟨above, (congrArg CallStack.newestFirst same).trans addresses⟩
          | @push newest pushed =>
              refine .inl ⟨newest :: above, ?_⟩
              rw [reached, pushed, addresses]
              rfl
          | pop active word popped =>
              rw [addresses] at popped
              -- The return belongs to a nested call, or to the frame itself.
              cases above with
              | cons newest others =>
                  exact .inl ⟨others, ((List.cons.inj popped).2).symm⟩
              | nil =>
                  rcases List.cons.inj popped with ⟨returned, rest⟩
                  refine .inr ⟨rfl, active, word, stepped, returned.symm, ?_⟩
                  exact congrArg CallStack.mk rest.symm

theorem Frame.depth_lt (frame : Frame address below machine) :
    below.depth < machine.stack.depth := by
  rcases frame with ⟨above, addresses⟩
  simp only [CallStack.depth, addresses, List.length_append, List.length_cons]
  omega

/-- By induction on the operations: while the stack stays above its old depth,
no return has ended the frame. -/
theorem Frame.stateAfter (frame : Frame address below machine) {continuation : List Operation}
    (continues : ∀ operation ∈ continuation, operation.Continues)
    (deep : ∀ earlier, earlier <+: continuation →
      below.depth < (Operation.stateAfter noise earlier machine).stack.depth) :
    Frame address below (Operation.stateAfter noise continuation machine) := by
  induction continuation generalizing machine with
  | nil => exact frame
  | cons first rest ih =>
      rcases frame.perform noise (continues first (.head _)) with kept | ⟨_, ended⟩
      · refine ih kept (fun later member => continues later (.tail _ member)) ?_
        intro earlier begins
        exact deep (first :: earlier) ((List.prefix_cons_inj first).mpr begins)
      · have shallow := deep [first] ((List.prefix_cons_inj first).mpr List.nil_prefix)
        change below.depth < (first.perform noise machine).2.stack.depth at shallow
        rw [ended.stack_eq] at shallow
        exact absurd shallow (Nat.lt_irrefl _)

/-- As long as the stack is higher than before a call, its lowest entries are
the old ones and the address behind the call.  The first operation that brings
it back to the old height is a return to that address, and it leaves the stack
as it was before the call. -/
theorem call_returns_behind_itself (reachable : Reachable noise machine)
    (calls : (machine.memory.word machine.pc).identifier = 0x2)
    (stepped : step noise machine = .ok () called) {continuation : List Operation}
    (continues : ∀ operation ∈ continuation, operation.Continues)
    (deep : ∀ earlier, earlier <+: continuation →
      machine.stack.depth < (Operation.stateAfter noise earlier called).stack.depth) :
    let now := Operation.stateAfter noise continuation called
    now.stack.oldestFirst.take (machine.stack.depth + 1) =
        machine.stack.oldestFirst ++ [machine.pc + 2] ∧
      ∀ operation : Operation, operation.Continues →
        (operation.perform noise now).2.stack.depth ≤ machine.stack.depth →
        operation = .step ∧ now.awaiting = none ∧ now.memory.word now.pc = 0x00EE ∧
          ∃ returned, step noise now = .ok () returned ∧
            returned.pc = machine.pc + 2 ∧ returned.stack = machine.stack := by
  intro now
  have pushed : Frame (machine.pc + 2) machine.stack called :=
    ⟨[], stack_of_call (reachable_sound reachable) calls stepped⟩
  have frame : Frame (machine.pc + 2) machine.stack now := pushed.stateAfter continues deep
  refine ⟨frame.take_oldestFirst, ?_⟩
  intro operation goes shallow
  rcases frame.perform noise goes with kept | ⟨isStep, ended⟩
  · exact absurd kept.depth_lt (Nat.not_lt_of_le shallow)
  · exact ⟨isStep, ended.active, ended.word, _, ended.stepped, ended.pc_eq, ended.stack_eq⟩

/-- A program that calls the return behind it comes back to the address behind the call. -/
theorem first_call_returns : ∃ machine called : Machine, Reachable (fun _ => 0) machine ∧
    step (fun _ => 0) machine = .ok () called ∧
      ∃ returned, step (fun _ => 0) called = .ok () returned ∧
        returned.pc = 0x202 ∧ returned.stack = CallStack.empty := by
  have fits : Rom.size ⟨#[0x22, 0x04, 0x12, 0x00, 0x00, 0xEE]⟩ ≤ Memory.romLimit := by decide
  rcases Memory.initial.exists_load fits with ⟨memory, copied⟩
  have word : memory.word 0x200 = 0x2204 := @Memory.word_opcode _ _ copied 0 (by decide)
  have behind : memory.word 0x204 = 0x00EE := @Memory.word_opcode _ _ copied 2 (by decide)
  let machine : Machine := { initial with memory }
  let calling : Plan := ⟨0x2204, .call 0x204, some 0x204⟩
  have calls : Permits machine calling := {
    start := show IsStart programStart by decide
    opcode_eq := word.symm
    decoded := Instruction.decode_eq_ok_iff.mpr (by decide)
    course := ⟨.jump 0x204, rfl, rfl⟩
    target_start := by rintro target ⟨⟩; decide }
  have called := step_of_permits (fun _ => 0) rfl calls
  let returning : Plan := ⟨0x00EE, .ret, some 0x202⟩
  have returns : Permits (complete (fun _ => 0) calling machine) returning := {
    start := show IsStart 0x204 by decide
    opcode_eq := behind.symm
    decoded := Instruction.decode_eq_ok_iff.mpr (by decide)
    course := ⟨.jump 0x202, rfl, rfl⟩
    target_start := by rintro target ⟨⟩; decide }
  have shallow : (Operation.step.perform (fun _ => 0)
      (complete (fun _ => 0) calling machine)).2.stack.depth ≤ machine.stack.depth := by
    rw [Operation.perform, step_of_permits (fun _ => 0) rfl returns]
    exact Nat.le_refl 0
  have deep : ∀ earlier : List Operation, earlier <+: [] → machine.stack.depth <
      (Operation.stateAfter (fun _ => 0) earlier
        (complete (fun _ => 0) calling machine)).stack.depth := by
    intro earlier begins
    rw [List.prefix_nil.mp begins]
    exact Nat.zero_lt_one
  have identified : (machine.memory.word machine.pc).identifier = 0x2 := by
    change (memory.word 0x200).identifier = 0x2
    rw [word]
    rfl
  have reachable : Reachable (fun _ => 0) machine := reachable_of_load _ copied
  rcases (call_returns_behind_itself reachable identified called
    (fun operation member => by cases member) deep).2 .step .step shallow with
    ⟨_, _, _, returned, stepped, pc, stack⟩
  exact ⟨machine, _, reachable, called, returned, stepped, pc, stack⟩

end Machine
end Chip8
