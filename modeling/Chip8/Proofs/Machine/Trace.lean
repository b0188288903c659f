import Chip8.Proofs.Machine.Invariant

namespace Chip8

/-!
# Traces

The trace of a list of operations is the list of what was performed, each
operation with the state it met, the reply it gave and the state it left.  A run
has no entry of its own: it is resolved into its steps, with the one that failed
as the last.

A trace and the state at its end grow together by one operation that is not a
run.  What holds of both is proved by that growth, in `trace_induction`.
-/

/-- An operation that was performed. -/
structure Performed where
  operation : Operation
  before : Machine
  reply : Reply
  after : Machine
  deriving DecidableEq

namespace Performed

/-- The opcode at the program counter before the operation. -/
def opcode (performed : Performed) : Opcode :=
  performed.before.memory.word performed.before.pc

/-- A step that succeeded and was not spent on waiting for a key. -/
def Executes (performed : Performed) : Prop :=
  performed.operation = .step ∧ performed.reply = .done ∧ performed.before.awaiting = none

instance : DecidablePred Executes :=
  fun _ => inferInstanceAs (Decidable (_ ∧ _))

end Performed

namespace Operation

/-- The operation is no run, so it has one entry in a trace. -/
def Single (operation : Operation) : Prop :=
  ∀ count, operation ≠ .run count

def performed (noise : Noise) (operation : Operation) (machine : Machine) : Performed where
  operation
  before := machine
  reply := (operation.perform noise machine).1
  after := (operation.perform noise machine).2

/-- The steps of a run, which end at the first that fails. -/
def runTrace (noise : Noise) : Nat → Machine → List Performed
  | 0, _ => []
  | count + 1, machine =>
      performed noise .step machine ::
        match Machine.step noise machine with
        | .ok _ after => runTrace noise count after
        | .error _ _ => []

/-- The entries of one operation. -/
def traceOf (noise : Noise) : Operation → Machine → List Performed
  | .run count, machine => runTrace noise count machine
  | operation, machine => [performed noise operation machine]

/-- The entries of operations performed in order. -/
def trace (noise : Noise) : List Operation → Machine → List Performed
  | [], _ => []
  | operation :: rest, machine =>
      traceOf noise operation machine ++ trace noise rest (operation.perform noise machine).2

variable {noise other : Noise} {machine : Machine}

theorem stateAfter_nil (noise : Noise) (machine : Machine) : stateAfter noise [] machine = machine := by
  rfl

theorem stateAfter_cons (noise : Noise) (operation : Operation) (rest : List Operation)
    (machine : Machine) :
    stateAfter noise (operation :: rest) machine =
      stateAfter noise rest (operation.perform noise machine).2 := by
  rfl

theorem trace_append (noise : Noise) (first later : List Operation) (machine : Machine) :
    trace noise (first ++ later) machine =
      trace noise first machine ++ trace noise later (stateAfter noise first machine) := by
  induction first generalizing machine with
  | nil => rfl
  | cons operation rest ih =>
      simp only [List.cons_append, trace, ih (operation.perform noise machine).2, List.append_assoc]
      rfl

/-- What executes an instruction has had a plan and has completed it. -/
theorem exists_plan_of_executes {operation : Operation}
    (executes : (performed noise operation machine).Executes) :
    ∃ plan, Machine.Permits machine plan ∧
      (operation.perform noise machine).2 = Machine.complete noise plan machine := by
  rcases executes with ⟨isStep, done, active⟩
  change operation = .step at isStep
  subst isStep
  change (Reply.ofResult .done (Machine.step noise machine)).1 = .done at done
  rw [perform, Machine.ofResult_snd]
  cases stepped : Machine.step noise machine with
  | error failure after =>
      rw [stepped] at done
      cases done
  | ok _ after =>
      cases Machine.progress_of_step stepped with
      | wait awaiting idle => cases active.symm.trans awaiting
      | receive awaiting down start => cases active.symm.trans awaiting
      | @complete plan _ permits => exact ⟨plan, permits, rfl⟩

/-- A step that executes nothing fails, goes on waiting or takes a key. -/
theorem after_of_not_executes (idle : ¬ (performed noise .step machine).Executes) :
    (step.perform noise machine).2 = machine ∨
      ∃ x key, (step.perform noise machine).2 = machine.receive x key := by
  rw [perform, Machine.ofResult_snd]
  cases stepped : Machine.step noise machine with
  | error failure after => exact .inl (Machine.step_eq_error_iff.mp stepped).2
  | ok _ after =>
      cases Machine.progress_of_step stepped with
      | wait awaiting down => exact .inl rfl
      | receive awaiting down start => exact .inr ⟨_, _, rfl⟩
      | complete active permits =>
          refine absurd ⟨rfl, ?_, active⟩ idle
          change (Reply.ofResult .done (Machine.step noise machine)).1 = .done
          rw [stepped]
          rfl

/-! ## Growth -/

section Growth

variable {P : List Performed → Machine → Prop}

/-- By induction on the number of steps. -/
theorem runTrace_induction
    (grows : ∀ past machine, P past machine →
      P (past ++ [performed noise .step machine]) (step.perform noise machine).2)
    {past : List Performed} (start : P past machine) (count : Nat) :
    P (past ++ runTrace noise count machine)
      (Machine.reached (Machine.run noise count machine)) := by
  induction count generalizing past machine with
  | zero =>
      rw [runTrace, List.append_nil]
      exact start
  | succ count ih =>
      have grown := grows past machine start
      rw [Machine.run_succ, runTrace]
      rw [perform, Machine.ofResult_snd] at grown
      cases stepped : Machine.step noise machine with
      | error failure after =>
          rw [stepped] at grown
          exact grown
      | ok _ after =>
          rw [stepped] at grown
          rw [← List.singleton_append, ← List.append_assoc]
          exact ih grown

/-- What each operation but a run keeps of a trace and the state at its end
holds of the trace of every list of operations. -/
theorem trace_induction
    (grows : ∀ past machine (operation : Operation), operation.Single → P past machine →
      P (past ++ [performed noise operation machine]) (operation.perform noise machine).2)
    (start : P [] machine) (operations : List Operation) :
    P (trace noise operations machine) (stateAfter noise operations machine) := by
  have onward : ∀ past, P past machine →
      P (past ++ trace noise operations machine) (stateAfter noise operations machine) := by
    clear start
    induction operations generalizing machine with
    | nil =>
        intro past holds
        rw [trace, List.append_nil]
        exact holds
    | cons operation rest ih =>
        intro past holds
        rw [trace, ← List.append_assoc]
        refine ih _ ?_
        cases operation with
        | run count =>
            rw [perform, Machine.ofResult_snd]
            refine runTrace_induction ?_ holds count
            intro past machine holds
            exact grows past machine .step (fun count => by simp) holds
        | _ => exact grows past machine _ (fun count => by simp) holds
  exact onward [] start

end Growth

theorem performed_of_mem_trace {entry : Performed} {operations : List Operation}
    (member : entry ∈ trace noise operations machine) :
    entry = performed noise entry.operation entry.before := by
  have all : ∀ entry ∈ trace noise operations machine,
      entry = performed noise entry.operation entry.before := by
    refine trace_induction (P := fun past _ => ∀ entry ∈ past,
      entry = performed noise entry.operation entry.before) ?_ (fun _ none => by cases none) operations
    intro past machine operation single earlier entry member
    rcases List.mem_append.mp member with old | new
    · exact earlier entry old
    · rw [List.mem_singleton.mp new]
      rfl
  exact all entry member

/-! ## The same trace under other random numbers -/

theorem run_of_runTrace_congr {count : Nat}
    (same : ∀ entry ∈ runTrace noise count machine, entry.operation = .step →
      Machine.step other entry.before = Machine.step noise entry.before) :
    Machine.run other count machine = Machine.run noise count machine ∧
      runTrace other count machine = runTrace noise count machine := by
  induction count generalizing machine with
  | zero => exact ⟨rfl, rfl⟩
  | succ count ih =>
      have first : Machine.step other machine = Machine.step noise machine :=
        same (performed noise .step machine) (.head _) rfl
      have entry : performed other .step machine = performed noise .step machine := by
        simp only [performed, perform, first]
      rw [Machine.run_succ, Machine.run_succ]
      simp only [runTrace, entry, first] at same ⊢
      cases stepped : Machine.step noise machine with
      | error failure after => exact ⟨rfl, rfl⟩
      | ok _ after =>
          rw [stepped] at same
          rcases @ih after fun entry member => same entry (.tail _ member) with ⟨runs, traces⟩
          exact ⟨runs, congrArg _ traces⟩

/-- Only steps look at random numbers, so noise under which every step of a
trace is the same gives the same replies, states and trace. -/
theorem trace_congr {operations : List Operation}
    (same : ∀ entry ∈ trace noise operations machine, entry.operation = .step →
      Machine.step other entry.before = Machine.step noise entry.before) :
    performAll other operations machine = performAll noise operations machine ∧
      trace other operations machine = trace noise operations machine := by
  induction operations generalizing machine with
  | nil => exact ⟨rfl, rfl⟩
  | cons operation rest ih =>
      rw [trace, List.forall_mem_append] at same
      have first : operation.perform other machine = operation.perform noise machine ∧
          traceOf other operation machine = traceOf noise operation machine := by
        cases operation with
        | run count =>
            rcases run_of_runTrace_congr same.1 with ⟨runs, traces⟩
            exact ⟨congrArg (Reply.ofResult (.ran count)) runs, traces⟩
        | step =>
            have stepped : Machine.step other machine = Machine.step noise machine :=
              same.1 (performed noise .step machine) (.head _) rfl
            simp only [traceOf, performed, perform, stepped, and_self]
        | _ => exact ⟨rfl, rfl⟩
      rcases ih same.2 with ⟨replies, traces⟩
      simp only [trace, performAll, first.1, first.2, replies, traces, and_self]

end Operation
end Chip8
