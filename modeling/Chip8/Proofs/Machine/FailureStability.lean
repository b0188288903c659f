import Chip8.Proofs.Machine.Invariant
import Chip8.Proofs.Memory.Ring

namespace Chip8

/-!
# Failed steps

A step that fails leaves the whole machine as it was, the count of random
numbers included.  A run therefore stops exactly in the state after its last
successful step, and a machine that has failed is stuck there: until some other
operation intervenes, every further step or run fails with the same error and
changes nothing.

None of this needs the machine to be reachable.  All that can go wrong in a
step has been asked before its first write, whatever the state is.
-/

namespace Operation

/-- The operation executes at least one step and does nothing else. -/
inductive Advances : Operation → Prop
  | step : Advances .step
  | run {count : Nat} (positive : 1 ≤ count) : Advances (.run count)

end Operation

namespace Machine

/-- Stepping and running, in any order, fail with the same error and change nothing. -/
def Stuck (noise : Noise) (failure : Error) (machine : Machine) : Prop :=
  ∀ operations : List Operation, (∀ operation ∈ operations, operation.Advances) →
    Operation.performAll noise operations machine =
      (List.replicate operations.length (.failed failure), machine)

variable {noise : Noise} {machine after : Machine} {failure : Error}

theorem run_of_step_failed (failed : step noise machine = .error failure machine) {count : Nat}
    (positive : 1 ≤ count) : run noise count machine = .error failure machine := by
  cases count with
  | zero => cases positive
  | succ count => rw [run_succ, failed]

theorem perform_of_step_failed (failed : step noise machine = .error failure machine)
    {operation : Operation} (advances : operation.Advances) :
    operation.perform noise machine = (.failed failure, machine) := by
  cases advances with
  | step => rw [Operation.perform, failed]; rfl
  | run positive => rw [Operation.perform, run_of_step_failed failed positive]; rfl

theorem stuck_of_step_failed (failed : step noise machine = .error failure machine) :
    Stuck noise failure machine := by
  intro operations advance
  induction operations with
  | nil => rfl
  | cons operation rest ih =>
      have first := perform_of_step_failed failed (advance operation (.head _))
      have others := ih fun later member => advance later (.tail _ member)
      rw [Operation.performAll, first]
      simp only [others, List.length_cons, List.replicate_succ]

theorem step_failed (failed : step noise machine = .error failure after) :
    after = machine ∧ step noise machine = .error failure machine := by
  have same := (step_eq_error_iff.mp failed).2
  subst same
  exact ⟨rfl, failed⟩

/-- By induction on the number of steps: the first failure ends the run in the
state that the earlier steps have reached. -/
theorem run_failed {count : Nat} (failed : run noise count machine = .error failure after) :
    (∃ done, done < count ∧ run noise done machine = .ok () after) ∧
      step noise after = .error failure after := by
  induction count generalizing machine with
  | zero => cases failed
  | succ count ih =>
      rw [run_succ] at failed
      cases stepped : step noise machine with
      | error reason reached =>
          rw [stepped] at failed
          cases failed
          rcases step_failed stepped with ⟨rfl, refused⟩
          exact ⟨⟨0, Nat.zero_lt_succ count, rfl⟩, refused⟩
      | ok _ middle =>
          rw [stepped] at failed
          rcases ih failed with ⟨⟨done, fewer, reached⟩, refused⟩
          refine ⟨⟨done + 1, Nat.succ_lt_succ fewer, ?_⟩, refused⟩
          rw [run_succ, stepped]
          exact reached

/-- A failing step is atomic, a failing run ends behind its successful steps,
and both leave a machine that is stuck. -/
theorem failure_atomic_and_stable (noise : Noise) (machine : Machine) :
    (∀ failure after, step noise machine = .error failure after →
      after = machine ∧ Stuck noise failure after) ∧
    (∀ count failure after, run noise count machine = .error failure after →
      (∃ done, done < count ∧ run noise done machine = .ok () after) ∧
        Stuck noise failure after) := by
  constructor
  · intro failure after failed
    rcases step_failed failed with ⟨rfl, refused⟩
    exact ⟨rfl, stuck_of_step_failed refused⟩
  · intro count failure after failed
    rcases run_failed failed with ⟨prefixed, refused⟩
    exact ⟨prefixed, stuck_of_step_failed refused⟩

/-- A program that returns before it has called gets stuck at its first opcode. -/
theorem return_without_call_is_stuck : ∃ machine : Machine,
    Reachable (fun _ => 0) machine ∧ Stuck (fun _ => 0) .stackUnderflow machine := by
  have fits : Rom.size ⟨#[0x00, 0xEE]⟩ ≤ Memory.romLimit := by decide
  rcases Memory.initial.exists_load fits with ⟨memory, copied⟩
  have word : memory.word programStart = 0x00EE :=
    @Memory.word_opcode _ _ copied 0 (by decide)
  have returns : Instruction.decode
      (({ initial with memory } : Machine).memory.word programStart) = .ok .ret := by
    rw [word]
    rfl
  have refused : plan { initial with memory } = .error .stackUnderflow := by
    rw [plan_eq (show IsStart programStart by decide)]
    simp only [initial, returns]
    rfl
  have failed : step (fun _ => 0) { initial with memory } =
      .error .stackUnderflow { initial with memory } := by
    refine step_eq_error_iff.mpr ⟨?_, rfl⟩
    change (do return complete _ (← plan { initial with memory }) _) = _
    rw [refused]
    rfl
  exact ⟨_, reachable_of_load _ copied, ((failure_atomic_and_stable _ _).1 _ _ failed).2⟩

end Machine
end Chip8
