import Chip8.Proofs.Machine.Footprint
import Chip8.Proofs.Machine.History
import Chip8.Proofs.Machine.Timing

namespace Chip8

/-!
# The timers beside the program

Three instructions use the timers.  As long as none of them is executed, the
timers and the program do not notice each other: a timer period can be moved past
any step, also past one that fails or that is spent on waiting, and past any run.

What was executed is read off the trace of the operations with all their periods.
That is enough to move every period to the end, where only their number counts.
-/

/-- The opcodes of the instructions that read or set a timer. -/
def Opcode.UsesTimers (op : Opcode) : Prop :=
  op.identifier = 0xF ∧ (op.kk = 0x07 ∨ op.kk = 0x15 ∨ op.kk = 0x18)

instance (op : Opcode) : Decidable op.UsesTimers :=
  inferInstanceAs (Decidable (_ ∧ _))

theorem Instruction.usesTimers_of_row {op : Opcode} {instruction : Instruction}
    (row : ofOpcode? op = some instruction) (uses : instruction.UsesTimers) : op.UsesTimers := by
  rw [← opcode_of_ofOpcode? row, Opcode.UsesTimers]
  cases instruction with
  | readDelay x | setDelay x | setSound x =>
      simp only [opcode, identifier_byteForm, kk_byteForm]
      decide
  | _ => exact uses.elim

namespace Timer

theorem toNat_tick (timer : Timer) : timer.tick.count.toNat = timer.count.toNat - 1 := by
  rw [tick]
  split
  · rename_i stopped
    rw [stopped]
    rfl
  · rename_i running
    have positive : timer.count.toNat ≠ 0 := fun zero => running (UInt8.toNat_inj.mp zero)
    exact UInt8.toNat_sub_of_le _ _ (UInt8.le_iff_toNat_le.mpr (Nat.one_le_iff_ne_zero.mpr positive))

end Timer

namespace Machine

variable {noise : Noise} {machine : Machine}

/-- At another opcode, and while a key is awaited, the next step spares the timers. -/
theorem spares_of_opcode
    (free : machine.awaiting ≠ none ∨ ¬ (machine.memory.word machine.pc).UsesTimers) :
    Spares machine := by
  intro plan active planned uses
  have permits := permits_of_plan planned
  have row := Instruction.decode_eq_ok_iff.mp permits.decoded
  rw [permits.opcode_eq] at row
  rcases free with waits | free
  · exact waits active
  · exact free (Instruction.usesTimers_of_row row uses)

/-- A machine that has a plan executes it, so its next step spares the timers if
the instruction that it executes does. -/
theorem spares_of_executes
    (free : (Operation.performed noise .step machine).Executes →
      ¬ (machine.memory.word machine.pc).UsesTimers) : Spares machine := by
  intro plan active planned
  have permits := permits_of_plan planned
  have done : (Operation.step.perform noise machine).1 = .done := by
    rw [Operation.perform, step_of_permits noise active permits, Reply.ofResult]
  exact spares_of_opcode (.inr (free ⟨rfl, done, active⟩)) plan active planned

/-! ## What the timers count -/

/-- Both timers of a machine. -/
def timers (machine : Machine) : Timer × Timer :=
  (machine.delay, machine.sound)

end Machine

/-- Nothing that uses the timers is executed. -/
def SparesTimers (past : List Performed) : Prop :=
  ∀ entry ∈ past, entry.Executes → ¬ entry.opcode.UsesTimers

theorem sparesTimers_append {past later : List Performed} :
    SparesTimers (past ++ later) ↔ SparesTimers past ∧ SparesTimers later :=
  List.forall_mem_append

namespace Operation

variable {noise : Noise} {machine : Machine} {operation : Operation} {operations : List Operation}

/-! ## One operation -/

theorem run_tickTimes {steps met : Nat}
    (spares : SparesTimers (runTrace noise steps (machine.tickTimes met))) (count : Nat) :
    Machine.run noise steps (machine.tickTimes count) =
      Machine.tickedResult count (Machine.run noise steps machine) := by
  induction steps generalizing machine with
  | zero => rfl
  | succ steps ih =>
      rw [runTrace] at spares
      have next : machine.Spares := (Machine.spares_tickTimes_iff met).mp
        (Machine.spares_of_executes (spares _ (.head _)))
      rw [Machine.step_tickTimes next] at spares
      rw [Machine.run_succ, Machine.run_succ, Machine.step_tickTimes next]
      cases stepped : Machine.step noise machine with
      | error failure after => rfl
      | ok _ after =>
          rw [stepped] at spares
          exact ih fun entry member => spares entry (.tail _ member)

/-- What neither executes an instruction that uses the timers nor stops them does
not mind periods.  That it executes none may be known from a machine for which
some periods have passed already. -/
theorem unhurried_of_spares {met : Nat} (goesOn : operation.restarts = false)
    (spares : SparesTimers (traceOf noise operation (machine.tickTimes met))) :
    Unhurried noise operation machine := by
  cases operation with
  | reset | load rom => cases goesOn
  | step =>
      exact unhurried_step ((Machine.spares_tickTimes_iff met).mp
        (Machine.spares_of_executes (spares _ (.head _))))
  | run steps =>
      intro count
      rw [perform, run_tickTimes spares, ofResult_ticked]
      rfl
  | setKey key pressed => exact unhurried_setKey key pressed
  | tick =>
      intro count
      exact congrArg (Prod.mk _) (Machine.tickTimes_comm Machine.tick (fun _ => rfl) machine count)
  | releaseKeys =>
      intro count
      exact congrArg (Prod.mk _)
        (Machine.tickTimes_comm Machine.releaseKeys (fun _ => rfl) machine count)
  | takeRedraw =>
      intro count
      have due := Machine.read_tickTimes (·.screen.changed) (fun _ => rfl) machine count
      have taken := Machine.tickTimes_comm (·.takeRedraw.2) (fun _ => rfl) machine count
      exact Prod.ext (congrArg Reply.redraw due) taken

theorem timers_of_step (spares : SparesTimers [performed noise .step machine]) :
    (step.perform noise machine).2.timers = machine.timers := by
  by_cases executes : (performed noise .step machine).Executes
  · have free := spares _ (.head _) executes
    rcases exists_plan_of_executes executes with ⟨plan, permits, completed⟩
    have row := Instruction.decode_eq_ok_iff.mp permits.decoded
    rw [permits.opcode_eq] at row
    have footprint := Machine.footprint_effect noise machine row
    have delay := footprint.delay fun ⟨first, last⟩ => free ⟨first, .inr (.inl last)⟩
    have sound := footprint.sound fun ⟨first, last⟩ => free ⟨first, .inr (.inr last)⟩
    rw [completed]
    exact Prod.ext delay sound
  · rcases after_of_not_executes executes with same | ⟨x, key, same⟩
    · rw [same]
    · rw [same]
      rfl

/-- What spares the timers leaves them to the periods. -/
theorem timers_of_spares (goesOn : operation.restarts = false) (leaves : operation ≠ .tick)
    (spares : SparesTimers (traceOf noise operation machine)) :
    (operation.perform noise machine).2.timers = machine.timers := by
  cases operation with
  | reset | load rom => cases goesOn
  | tick => exact absurd rfl leaves
  | setKey key pressed | releaseKeys | takeRedraw => rfl
  | step => exact timers_of_step spares
  | run steps =>
      have grown : SparesTimers ([] ++ runTrace noise steps machine) →
          (Machine.reached (Machine.run noise steps machine)).timers = machine.timers := by
        refine runTrace_induction (P := fun past reached =>
          SparesTimers past → reached.timers = machine.timers) ?_ (fun _ => rfl) steps
        intro past reached kept spares
        rcases sparesTimers_append.mp spares with ⟨earlier, now⟩
        rw [timers_of_step now]
        exact kept earlier
      rw [perform, Machine.ofResult_snd]
      exact grown spares

/-! ## Every list of operations -/

/-- Operations that spare the timers can be performed without their periods, also
if some periods have passed before. -/
theorem allUnhurried_of_spares {met : Nat} (goOn : ∀ operation ∈ operations, operation.restarts = false)
    (spares : SparesTimers (trace noise operations (machine.tickTimes met))) :
    AllUnhurried noise (untimed operations) machine := by
  induction operations generalizing machine met with
  | nil => trivial
  | cons operation rest ih =>
      have others : ∀ operation ∈ rest, operation.restarts = false :=
        fun operation member => goOn operation (.tail _ member)
      rcases sparesTimers_append.mp spares with ⟨now, later⟩
      have unhurried := unhurried_of_spares (goOn operation (.head _)) now
      by_cases period : operation = .tick
      · subst period
        change SparesTimers (trace noise rest (machine.tickTimes met).tick) at later
        rw [Machine.tick_tickTimes] at later
        exact ih others later
      · rw [untimed_cons period]
        rw [unhurried met] at later
        exact ⟨unhurried, ih others later⟩

/-- Each period takes one from both timers until they are at zero, and nothing else does. -/
theorem timers_stateAfter (goOn : ∀ operation ∈ operations, operation.restarts = false)
    (spares : SparesTimers (trace noise operations machine)) :
    (stateAfter noise operations machine).delay.count.toNat =
        machine.delay.count.toNat - operations.count .tick ∧
      (stateAfter noise operations machine).sound.count.toNat =
        machine.sound.count.toNat - operations.count .tick := by
  induction operations generalizing machine with
  | nil => exact ⟨rfl, rfl⟩
  | cons operation rest ih =>
      rcases sparesTimers_append.mp spares with ⟨now, others⟩
      have later := ih (fun operation member => goOn operation (.tail _ member)) others
      rw [stateAfter_cons, later.1, later.2]
      by_cases period : operation = .tick
      · subst period
        have delay : (tick.perform noise machine).2.delay.count.toNat =
            machine.delay.count.toNat - 1 := machine.delay.toNat_tick
        have sound : (tick.perform noise machine).2.sound.count.toNat =
            machine.sound.count.toNat - 1 := machine.sound.toNat_tick
        rw [delay, sound, List.count_cons_self, Nat.sub_sub, Nat.sub_sub, Nat.add_comm 1]
        exact ⟨rfl, rfl⟩
      · have same := timers_of_spares (goOn operation (.head _)) period now
        have delay : (operation.perform noise machine).2.delay = machine.delay :=
          congrArg Prod.fst same
        have sound : (operation.perform noise machine).2.sound = machine.sound :=
          congrArg Prod.snd same
        rw [delay, sound, List.count_cons_of_ne period]
        exact ⟨rfl, rfl⟩

/-- The operations that are no timer periods, each with its reply. -/
def answers (noise : Noise) (operations : List Operation) (machine : Machine) :
    List (Operation × Reply) :=
  (operations.zip (performAll noise operations machine).1).filter (·.1 ≠ .tick)

theorem answers_cons (answered : operation ≠ .tick) (rest : List Operation) (machine : Machine) :
    answers noise (operation :: rest) machine =
      (operation, (operation.perform noise machine).1) ::
        answers noise rest (operation.perform noise machine).2 := by
  rw [answers, performAll, List.zip_cons_cons]
  exact List.filter_cons_of_pos (decide_eq_true answered)

/-- Periods that nobody minds change no answer. -/
theorem answers_tickTimes (unhurried : AllUnhurried noise (untimed operations) machine)
    (count : Nat) :
    answers noise operations (machine.tickTimes count) =
      answers noise (untimed operations) machine := by
  induction operations generalizing machine count with
  | nil => rfl
  | cons operation rest ih =>
      by_cases period : operation = .tick
      · subst period
        change answers noise rest (machine.tickTimes count).tick = _
        rw [Machine.tick_tickTimes]
        exact ih unhurried (count + 1)
      · rw [untimed_cons period] at unhurried ⊢
        rw [answers_cons period, answers_cons period, unhurried.1 count]
        exact congrArg (List.cons _) (ih unhurried.2 count)

/-- At an opcode that uses no timer, and while a key is awaited, any number of
periods may pass before a step or after it.  A failing step fails with the same
error.

Now let some operations neither reset the machine nor load a program, and let them
execute no instruction that uses the timers.  Then both timers end at what the
periods leave of them.  If the same operations are performed with as many periods
in other places, they get the same replies and lead to the same state. -/
theorem timers_run_beside_the_program (noise : Noise) (machine : Machine) :
    (machine.awaiting ≠ none ∨ ¬ (machine.memory.word machine.pc).UsesTimers →
      ∀ count, Machine.step noise (machine.tickTimes count) =
        Machine.tickedResult count (Machine.step noise machine)) ∧
    ∀ operations : List Operation, (∀ operation ∈ operations, operation.restarts = false) →
      SparesTimers (trace noise operations machine) →
      let last := stateAfter noise operations machine
      last.delay.count.toNat = machine.delay.count.toNat - operations.count .tick ∧
      last.sound.count.toNat = machine.sound.count.toNat - operations.count .tick ∧
      ∀ other, untimed other = untimed operations →
        other.count .tick = operations.count .tick →
        answers noise other machine = answers noise operations machine ∧
          stateAfter noise other machine = last := by
  refine ⟨fun free => Machine.step_tickTimes (Machine.spares_of_opcode free), ?_⟩
  intro operations goOn spares last
  have unhurried : AllUnhurried noise (untimed operations) machine :=
    @allUnhurried_of_spares noise machine operations 0 goOn spares
  rcases timers_stateAfter goOn spares with ⟨delay, sound⟩
  refine ⟨delay, sound, ?_⟩
  intro other sameOperations sameCount
  have otherUnhurried : AllUnhurried noise (untimed other) machine := sameOperations ▸ unhurried
  constructor
  · calc
      answers noise other machine = answers noise (untimed other) machine :=
        answers_tickTimes otherUnhurried 0
      _ = answers noise (untimed operations) machine := by rw [sameOperations]
      _ = answers noise operations machine := (answers_tickTimes unhurried 0).symm
  · calc
      stateAfter noise other machine =
          (stateAfter noise (untimed other) machine).tickTimes (other.count .tick) :=
        stateAfter_eq_untimed otherUnhurried
      _ = (stateAfter noise (untimed operations) machine).tickTimes (operations.count .tick) := by
        rw [sameOperations, sameCount]
      _ = last := (stateAfter_eq_untimed unhurried).symm

/-- Two periods before a jump or around it stop a timer that has one period to go,
and leave one of three to the other. -/
theorem jump_between_periods : ∃ machine : Machine,
    machine.delay = ⟨1⟩ ∧ machine.sound = ⟨3⟩ ∧ machine.memory.word machine.pc = 0x1200 ∧
    stateAfter (fun _ => 0) [.tick, .tick, .step] machine =
      stateAfter (fun _ => 0) [.tick, .step, .tick] machine ∧
    (stateAfter (fun _ => 0) [.tick, .step, .tick] machine).delay.count.toNat = 0 ∧
    (stateAfter (fun _ => 0) [.tick, .step, .tick] machine).sound.count.toNat = 1 ∧
    Machine.step (fun _ => 0) (machine.tickTimes 2) =
      Machine.tickedResult 2 (Machine.step (fun _ => 0) machine) := by
  have fits : Rom.size ⟨#[0x12, 0x00]⟩ ≤ Memory.romLimit := by decide
  rcases Memory.initial.exists_load fits with ⟨memory, copied⟩
  have word : memory.word 0x200 = 0x1200 := @Memory.word_opcode _ _ copied 0 (by decide)
  let machine : Machine := { Machine.initial with memory, delay := ⟨1⟩, sound := ⟨3⟩ }
  have free : ¬ (machine.memory.word machine.pc).UsesTimers := by
    change ¬ (memory.word 0x200).UsesTimers
    rw [word]
    decide
  have spares : SparesTimers (trace (fun _ => 0) [.tick, .step, .tick] machine) := by
    intro entry member executes
    rcases List.mem_cons.mp member with rfl | member
    · cases executes.1
    rcases List.mem_cons.mp member with rfl | member
    · exact free
    · cases List.mem_singleton.mp member
      cases executes.1
  rcases timers_run_beside_the_program (fun _ => 0) machine with ⟨onestep, all⟩
  rcases all [.tick, .step, .tick] (by decide) spares with ⟨delay, sound, moved⟩
  rcases moved [.tick, .tick, .step] (by decide) (by decide) with ⟨_, same⟩
  exact ⟨machine, rfl, rfl, word, same, delay, sound, onestep (.inr free) 2⟩

end Operation
end Chip8
