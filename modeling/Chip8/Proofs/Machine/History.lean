import Chip8.Proofs.Machine.KeyWait
import Chip8.Proofs.Machine.Trace
import Mathlib.Data.List.DropRight

namespace Chip8

/-!
# The history

The history of a machine is compared with the list of all instructions that were
executed since it was last reset or loaded.  The list grows without bound and is
read off the trace; the machine keeps its last ten entries.

An entry is the instruction as it was fetched.  What the instruction then writes
does not matter, not even when it writes over itself.
-/

/-- The operation makes the machine forget what it has executed. -/
def Operation.restarts : Operation → Bool
  | .reset | .load _ => true
  | _ => false

/-- The instruction that a step has executed, with the address and the opcode it
was fetched at and as. -/
def Performed.executed? (performed : Performed) : Option Executed :=
  if performed.Executes then
    performed.before.fetch.toOption.map fun opcode => ⟨performed.before.pc, opcode⟩
  else none

/-- The instructions executed since the last reset or load, oldest first. -/
def executedSinceRestart (past : List Performed) : List Executed :=
  (past.rtakeWhile fun entry => !entry.operation.restarts).filterMap Performed.executed?

theorem executedSinceRestart_restart {past : List Performed} {entry : Performed}
    (restarts : entry.operation.restarts = true) : executedSinceRestart (past ++ [entry]) = [] := by
  rw [executedSinceRestart, List.rtakeWhile_concat_neg _ _ _ (by simp [restarts])]
  rfl

theorem executedSinceRestart_append {past later : List Performed}
    (goesOn : ∀ entry ∈ later, entry.operation.restarts = false) :
    executedSinceRestart (past ++ later) =
      executedSinceRestart past ++ later.filterMap Performed.executed? := by
  have kept : (past ++ later).rtakeWhile (fun entry => !entry.operation.restarts) =
      past.rtakeWhile (fun entry => !entry.operation.restarts) ++ later := by
    rw [List.rtakeWhile, List.reverse_append, List.takeWhile_append_of_pos (by simpa using goesOn),
      List.reverse_append, List.reverse_reverse, List.rtakeWhile]
  rw [executedSinceRestart, kept, List.filterMap_append, executedSinceRestart]

namespace Operation

variable {noise : Noise} {machine : Machine} {operation : Operation}

theorem executed?_of_executes (executes : (performed noise operation machine).Executes) :
    (performed noise operation machine).executed? =
      some ⟨machine.pc, machine.memory.word machine.pc⟩ := by
  rcases exists_plan_of_executes executes with ⟨plan, permits, _⟩
  have fetched : machine.fetch = .ok (machine.memory.word machine.pc) :=
    Machine.fetch_of_isStart permits.start
  rw [Performed.executed?, if_pos executes]
  change machine.fetch.toOption.map _ = _
  rw [fetched]
  rfl

/-! ## One operation -/

theorem recent_of_restarts (restarts : operation.restarts = true) :
    (operation.perform noise machine).2.recent = [] := by
  cases operation with
  | reset => rfl
  | load rom =>
      rw [perform, Machine.load_run]
      cases Memory.initial.load rom <;> rfl
  | _ => cases restarts

theorem recent_of_executes (executes : (performed noise operation machine).Executes) :
    (operation.perform noise machine).2.recent =
      ((⟨machine.pc, machine.memory.word machine.pc⟩ : Executed) :: machine.recent).take
        Machine.historyCapacity := by
  rcases exists_plan_of_executes executes with ⟨plan, permits, completed⟩
  rw [completed, Machine.complete, permits.opcode_eq]

/-- Failing steps and steps spent on waiting are not remembered, and neither is
anything that is no step. -/
theorem recent_of_not_executes (single : operation.Single)
    (goesOn : operation.restarts = false)
    (idle : ¬ (performed noise operation machine).Executes) :
    (operation.perform noise machine).2.recent = machine.recent := by
  cases operation with
  | reset | load rom => cases goesOn
  | run count => exact absurd rfl (single count)
  | tick | setKey key pressed | releaseKeys | takeRedraw => rfl
  | step =>
      rcases after_of_not_executes idle with same | ⟨x, key, same⟩
      · rw [same]
      · rw [same]
        rfl

/-! ## Every list of operations -/

/-- What is remembered, newest first, is the executed list read backwards as far
as it is kept. -/
theorem recent_eq (noise : Noise) (operations : List Operation) :
    (stateAfter noise operations Machine.initial).recent =
      (executedSinceRestart (trace noise operations Machine.initial)).reverse.take
        Machine.historyCapacity := by
  refine trace_induction (P := fun past machine => machine.recent =
    (executedSinceRestart past).reverse.take Machine.historyCapacity) ?_ rfl operations
  intro past machine operation single remembered
  cases again : operation.restarts with
  | true =>
      rw [recent_of_restarts again, executedSinceRestart_restart again]
      rfl
  | false =>
      rw [executedSinceRestart_append (by simpa [performed] using again)]
      by_cases executes : (performed noise operation machine).Executes
      · rw [recent_of_executes executes, remembered]
        simp [executed?_of_executes executes, Machine.historyCapacity, List.take_take]
      · rw [recent_of_not_executes single again executes, remembered]
        simp [Performed.executed?, executes]

/-- The history is the end of the executed list, with ten entries if it has so many. -/
theorem history_eq_rtake (noise : Noise) (operations : List Operation) :
    (stateAfter noise operations Machine.initial).history =
      (executedSinceRestart (trace noise operations Machine.initial)).rtake 10 := by
  rw [Machine.history, recent_eq, List.rtake_eq_reverse_take_reverse]
  rfl

theorem history_of_executes (executes : (performed noise operation machine).Executes) :
    (operation.perform noise machine).2.history =
      (machine.history ++ [Executed.mk machine.pc (machine.memory.word machine.pc)]).rtake 10 := by
  rw [Machine.history, recent_of_executes executes, List.rtake_eq_reverse_take_reverse,
    Machine.history, List.reverse_append, List.reverse_reverse]
  rfl

/-! ## Waiting for a key -/

/-- No operation restarts the machine, and every step meets a machine that waits for a key. -/
def OnlyWaits (noise : Noise) (operations : List Operation) (machine : Machine) : Prop :=
  ∀ entry ∈ trace noise operations machine, entry.operation.restarts = false ∧
    (entry.operation = .step → entry.before.awaiting ≠ none)

theorem OnlyWaits.executedSinceRestart_append {waiting : List Operation}
    (waits : OnlyWaits noise waiting machine) (past : List Performed) :
    executedSinceRestart (past ++ trace noise waiting machine) = executedSinceRestart past := by
  have nothing : (trace noise waiting machine).filterMap Performed.executed? = [] := by
    rw [List.filterMap_eq_nil_iff]
    intro entry member
    exact if_neg fun executes => (waits entry member).2 executes.1 executes.2.2
  rw [Chip8.executedSinceRestart_append fun entry member => (waits entry member).1, nothing,
    List.append_nil]

/-- The instruction that awaits a key is executed when the wait begins, and not
again while it lasts or when it ends. -/
theorem executedSinceRestart_wait {x : Reg} (ready : machine.AtAwait x)
    (idle : machine.keypad.firstDown = none) {waiting : List Operation}
    (waits : OnlyWaits noise waiting (machine.hold x)) (past : List Performed) :
    executedSinceRestart (past ++ trace noise (.step :: waiting) machine) =
      executedSinceRestart past ++ [⟨machine.pc, machine.memory.word machine.pc⟩] := by
  have stepped := ready.step_idle noise idle
  have held : (step.perform noise machine).2 = machine.hold x := by
    rw [perform, stepped]
    rfl
  have executes : (performed noise .step machine).Executes := by
    refine ⟨rfl, ?_, ready.active⟩
    rw [performed, perform, stepped]
    rfl
  rw [trace, held, ← List.append_assoc, waits.executedSinceRestart_append,
    Chip8.executedSinceRestart_append (by simp [traceOf, performed, restarts])]
  simp [traceOf, executed?_of_executes executes]

/-- The history is exactly the last ten of the instructions executed since the
last reset or load.  A step adds the instruction it has fetched if it executes
it, and nothing if it fails or is spent on waiting; so a wait for a key adds one
entry, however long it lasts. -/
theorem history_is_tail_of_executed (noise : Noise) (operations : List Operation) :
    let machine := stateAfter noise operations Machine.initial
    let executed := executedSinceRestart (trace noise operations Machine.initial)
    let stepped := performed noise .step machine
    (machine.history <:+ executed ∧ machine.history.length = min 10 executed.length) ∧
    (stepped.Executes → ∃ opcode, machine.fetch = .ok opcode ∧
      stepped.after.history = (machine.history ++ [Executed.mk machine.pc opcode]).rtake 10) ∧
    (¬ stepped.Executes → stepped.after.history = machine.history) ∧
    (∀ x : Reg, machine.awaiting = none → ¬ machine.keypad.AnyDown →
      machine.memory.word machine.pc = (Instruction.awaitKey x).opcode →
      ∃ held, Machine.step noise machine = .ok () held ∧ held.awaiting = some x ∧
        ∀ waiting, OnlyWaits noise waiting held →
          executedSinceRestart (trace noise (operations ++ .step :: waiting) Machine.initial) =
            executed ++ [⟨machine.pc, machine.memory.word machine.pc⟩]) := by
  intro machine executed stepped
  have sound : Machine.Sound machine :=
    Machine.reachable_sound (Machine.Reachable.initial.stateAfter operations)
  have tail : machine.history = executed.drop (executed.length - 10) :=
    history_eq_rtake noise operations
  refine ⟨?_, ?_, ?_, ?_⟩
  · rw [tail]
    refine ⟨List.drop_suffix _ _, ?_⟩
    rw [List.length_drop]
    omega
  · intro executes
    exact ⟨_, sound.fetch, history_of_executes executes⟩
  · intro idle
    have kept := recent_of_not_executes (fun count => by simp) rfl idle
    rw [Machine.history, Machine.history, ← kept]
    rfl
  · intro x active released word
    have idle : machine.keypad.firstDown = none := by
      rw [← Option.not_isSome_iff_eq_none, Keypad.firstDown_isSome_iff]
      exact released
    have ready : machine.AtAwait x := ⟨sound.start, active, word⟩
    refine ⟨machine.hold x, ready.step_idle noise idle, rfl, ?_⟩
    intro waiting waits
    rw [trace_append]
    exact executedSinceRestart_wait ready idle waits _

/-- A program whose first instruction awaits a key has executed one instruction
when the key has come. -/
theorem wait_is_listed_once : ∃ rom : Rom,
    executedSinceRestart (trace (fun _ => 0)
      [.load rom, .step, .tick, .setKey 5 true, .step] Machine.initial) = [⟨0x200, 0xF00A⟩] := by
  let rom : Rom := ⟨#[0xF0, 0x0A]⟩
  have fits : rom.size ≤ Memory.romLimit := by decide
  rcases Memory.initial.exists_load fits with ⟨memory, copied⟩
  have word : memory.word 0x200 = (Instruction.awaitKey 0).opcode :=
    @Memory.word_opcode _ _ copied 0 (by decide)
  have loaded : stateAfter (fun _ => 0) [.load rom] Machine.initial =
      { Machine.initial with memory } := by
    change ((Operation.load rom).perform (fun _ => 0) Machine.initial).2 = _
    rw [perform, Machine.load_run, copied]
    rfl
  have main := (history_is_tail_of_executed (fun _ => 0) [.load rom]).2.2.2 0
  rw [loaded] at main
  rcases main rfl (show ¬ Keypad.released.AnyDown by decide) word with ⟨held, _, awaiting, listed⟩
  have waits : OnlyWaits (fun _ => 0) [.tick, .setKey 5 true, .step] held := by
    have stays : held.awaiting ≠ none := by simp [awaiting]
    intro entry member
    rcases List.mem_cons.mp member with rfl | member
    · exact ⟨rfl, fun _ => stays⟩
    rcases List.mem_cons.mp member with rfl | member
    · exact ⟨rfl, fun _ => stays⟩
    rcases List.mem_cons.mp member with rfl | member
    · exact ⟨rfl, fun _ => stays⟩
    · cases member
  refine ⟨rom, (listed _ waits).trans ?_⟩
  change [Executed.mk 0x200 (memory.word 0x200)] = _
  rw [word]
  rfl

end Operation
end Chip8
