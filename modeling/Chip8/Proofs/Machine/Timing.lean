import Chip8.Proofs.Machine.Invariant

namespace Chip8

/-!
# Timer periods and the course of a program

Timer periods may pass at any time.  They touch the two timers and nothing
else, and only three instructions touch the timers, so at any other instruction,
and while a key is awaited, it makes no difference whether a period passes
before a step or after it.

For a list of operations this means: as long as none of them minds, the periods
that pass between them can be put off to the end.
-/

/-- The instruction reads or sets a timer. -/
def Instruction.UsesTimers : Instruction → Prop
  | .readDelay _ | .setDelay _ | .setSound _ => True
  | _ => False

namespace Machine

variable {noise : Noise} {machine : Machine}

/-! ## One period and one step -/

theorem tickTimes_add (machine : Machine) (first later : Nat) :
    machine.tickTimes (first + later) = (machine.tickTimes first).tickTimes later := by
  induction first generalizing machine with
  | zero => rw [Nat.zero_add]; rfl
  | succ first ih =>
      rw [Nat.succ_add]
      exact ih machine.tick

theorem tick_tickTimes (machine : Machine) (count : Nat) :
    (machine.tickTimes count).tick = machine.tickTimes (count + 1) :=
  (machine.tickTimes_add count 1).symm

/-- What commutes with one period commutes with many. -/
theorem tickTimes_comm (change : Machine → Machine)
    (comm : ∀ machine : Machine, change machine.tick = (change machine).tick)
    (machine : Machine) (count : Nat) :
    change (machine.tickTimes count) = (change machine).tickTimes count := by
  induction count generalizing machine with
  | zero => rfl
  | succ count ih => rw [tickTimes, ih, comm]; rfl

/-- What one period leaves alone, many do. -/
theorem read_tickTimes {α : Type} (read : Machine → α)
    (same : ∀ machine : Machine, read machine.tick = read machine) (machine : Machine)
    (count : Nat) : read (machine.tickTimes count) = read machine := by
  induction count generalizing machine with
  | zero => rfl
  | succ count ih => exact (ih machine.tick).trans (same machine)

@[simp] theorem tick_keypad (machine : Machine) : machine.tick.keypad = machine.keypad := rfl

/-- The next step is at no instruction that uses the timers. -/
def Untimed (machine : Machine) : Prop :=
  machine.awaiting ≠ none ∨
    ∀ instruction, Instruction.decode (machine.memory.word machine.pc) = .ok instruction →
      ¬ instruction.UsesTimers

/-- The next step executes no instruction that uses the timers.  It may be at one
that it cannot execute. -/
def Spares (machine : Machine) : Prop :=
  ∀ plan, machine.awaiting = none → machine.plan = .ok plan → ¬ plan.instruction.UsesTimers

theorem Untimed.spares (untimed : Untimed machine) : Spares machine := by
  intro plan active planned
  have permits := permits_of_plan planned
  rcases untimed with waits | untimed
  · exact absurd active waits
  · exact untimed plan.instruction (permits.opcode_eq ▸ permits.decoded)

theorem effect_tick {instruction : Instruction} (untimed : ¬ instruction.UsesTimers) :
    effect noise instruction machine.tick = (effect noise instruction machine).tick := by
  cases instruction with
  | readDelay x | setDelay x | setSound x => exact absurd trivial untimed
  | ret => simp only [effect_ret]; rfl
  | call target =>
      rw [effect_call, effect_call, apply_ite tick]
      rfl
  | awaitKey x =>
      simp only [effect_awaitKey, tick_keypad]
      split <;> rfl
  | _ => rfl

/-- Control flow does not look at the timers. -/
theorem plan_tick (machine : Machine) : machine.tick.plan = machine.plan :=
  plan_congr rfl rfl rfl rfl rfl

theorem spares_tickTimes_iff (count : Nat) : Spares (machine.tickTimes count) ↔ Spares machine := by
  have plan := read_tickTimes Machine.plan plan_tick machine count
  have awaiting := read_tickTimes Machine.awaiting (fun _ => rfl) machine count
  simp only [Spares, plan, awaiting]

theorem next_tick (spares : Spares machine) :
    machine.tick.next noise = (machine.next noise).map tick := by
  refine next_change rfl rfl rfl (plan_tick machine) (fun _ _ => rfl) ?_
  intro plan active planned
  unfold complete
  rw [effect_tick (spares plan active planned)]
  rfl

theorem next_tickTimes (spares : Spares machine) (count : Nat) :
    (machine.tickTimes count).next noise = (machine.next noise).map (·.tickTimes count) := by
  induction count generalizing machine with
  | zero => cases h : machine.next noise <;> simp [tickTimes, h, Except.map]
  | succ count ih =>
      have later : Spares machine.tick := (spares_tickTimes_iff 1).mpr spares
      rw [tickTimes, ih later, next_tick spares]
      cases machine.next noise <;> rfl

/-- A result after whose state some periods have passed. -/
def tickedResult (count : Nat) :
    EStateM.Result Error Machine Unit → EStateM.Result Error Machine Unit
  | .ok _ machine => .ok () (machine.tickTimes count)
  | .error failure machine => .error failure (machine.tickTimes count)

theorem step_tickTimes (spares : Spares machine) (count : Nat) :
    step noise (machine.tickTimes count) = tickedResult count (step noise machine) := by
  rw [step_eq, step_eq, next_tickTimes spares]
  cases machine.next noise <;> rfl

end Machine

/-! ## Periods between operations -/

namespace Operation

variable {noise : Noise} {machine : Machine}

/-- The operation does not mind whether periods pass before it or after it. -/
def Unhurried (noise : Noise) (operation : Operation) (machine : Machine) : Prop :=
  ∀ count, operation.perform noise (machine.tickTimes count) =
    ((operation.perform noise machine).1, (operation.perform noise machine).2.tickTimes count)

theorem ofResult_ticked (reply : Reply) (count : Nat) (result : EStateM.Result Error Machine Unit) :
    Reply.ofResult reply (Machine.tickedResult count result) =
      ((Reply.ofResult reply result).1, (Reply.ofResult reply result).2.tickTimes count) := by
  cases result <;> rfl

theorem unhurried_step (spares : machine.Spares) : Unhurried noise .step machine := by
  intro count
  rw [perform, Machine.step_tickTimes spares, ofResult_ticked]
  rfl

theorem unhurried_setKey (key : UInt8) (pressed : Bool) :
    Unhurried noise (.setKey key pressed) machine := by
  intro count
  have comm := Machine.tickTimes_comm (Machine.setKey key pressed) (fun _ => rfl) machine count
  rw [perform, comm]
  rfl

/-- None of the operations, performed in order, minds periods. -/
def AllUnhurried (noise : Noise) : List Operation → Machine → Prop
  | [], _ => True
  | operation :: rest, machine =>
      Unhurried noise operation machine ∧
        AllUnhurried noise rest (operation.perform noise machine).2

theorem performAll_append (noise : Noise) (first later : List Operation) (machine : Machine) :
    performAll noise (first ++ later) machine =
      ((performAll noise first machine).1 ++
          (performAll noise later (stateAfter noise first machine)).1,
        stateAfter noise later (stateAfter noise first machine)) := by
  induction first generalizing machine with
  | nil => rfl
  | cons operation rest ih =>
      simp only [List.cons_append, performAll, ih (operation.perform noise machine).2]
      rfl

theorem stateAfter_append (noise : Noise) (first later : List Operation) (machine : Machine) :
    stateAfter noise (first ++ later) machine =
      stateAfter noise later (stateAfter noise first machine) := by
  rw [stateAfter, performAll_append]

theorem stateAfter_replicate_tick (noise : Noise) (count : Nat) (machine : Machine) :
    stateAfter noise (List.replicate count .tick) machine = machine.tickTimes count := by
  induction count generalizing machine with
  | zero => rfl
  | succ count ih => exact ih machine.tick

theorem allUnhurried_append {first later : List Operation}
    (firstUnhurried : AllUnhurried noise first machine)
    (laterUnhurried : AllUnhurried noise later (stateAfter noise first machine)) :
    AllUnhurried noise (first ++ later) machine := by
  induction first generalizing machine with
  | nil => exact laterUnhurried
  | cons operation rest ih => exact ⟨firstUnhurried.1, ih firstUnhurried.2 laterUnhurried⟩

/-- The operations of a list that are no timer periods. -/
def untimed (operations : List Operation) : List Operation :=
  operations.filter (· ≠ .tick)

theorem untimed_cons {operation : Operation} (other : operation ≠ .tick) (rest : List Operation) :
    untimed (operation :: rest) = operation :: untimed rest :=
  List.filter_cons_of_pos (decide_eq_true other)

/-- Periods that nobody minds can pass at the end. -/
theorem stateAfter_tickTimes {operations : List Operation}
    (unhurried : AllUnhurried noise (untimed operations) machine) (count : Nat) :
    stateAfter noise operations (machine.tickTimes count) =
      (stateAfter noise (untimed operations) machine).tickTimes
        (count + operations.count .tick) := by
  induction operations generalizing machine count with
  | nil => rfl
  | cons operation rest ih =>
      by_cases period : operation = .tick
      · subst period
        change stateAfter noise rest (machine.tickTimes count).tick = _
        rw [Machine.tick_tickTimes, ih unhurried, List.count_cons_self, Nat.add_assoc, Nat.add_comm 1]
        rfl
      · rw [untimed_cons period] at unhurried ⊢
        have performed := unhurried.1 count
        change stateAfter noise rest (operation.perform noise (machine.tickTimes count)).2 = _
        rw [performed, ih unhurried.2, List.count_cons_of_ne period]
        rfl

theorem stateAfter_eq_untimed {operations : List Operation}
    (unhurried : AllUnhurried noise (untimed operations) machine) :
    stateAfter noise operations machine =
      (stateAfter noise (untimed operations) machine).tickTimes (operations.count .tick) := by
  have postponed := stateAfter_tickTimes unhurried 0
  rwa [Nat.zero_add] at postponed

end Operation
end Chip8
