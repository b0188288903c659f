import Chip8.Proofs.Machine.Invariant
import Chip8.Proofs.Memory.Ring

namespace Chip8

/-!
# Loading a program

A machine that has loaded a program is a new machine with the program in its
memory, except that the random numbers go on where they were.  How many numbers
were used before only says where the machine stands in the noise: having used
some of them is the same as never having seen them.

So a program cannot tell what was done to the machine before it was loaded.
-/

/-- The noise without its first numbers. -/
def Noise.skip (noise : Noise) (count : Nat) : Noise :=
  fun k => noise (count + k)

namespace Machine

variable {noise : Noise} {machine : Machine}

/-! ## Numbers used before -/

/-- The machine with some numbers used before those that it has used. -/
def ahead (count : Nat) (machine : Machine) : Machine :=
  { machine with drawn := count + machine.drawn }

/-- The machine without its place in the noise. -/
def exceptNoise (machine : Machine) : Machine :=
  { machine with drawn := 0 }

@[simp] theorem ahead_keypad (count : Nat) (machine : Machine) :
    (machine.ahead count).keypad = machine.keypad := rfl

@[simp] theorem exceptNoise_ahead (count : Nat) (machine : Machine) :
    (machine.ahead count).exceptNoise = machine.exceptNoise := rfl

theorem effect_ahead (noise : Noise) (instruction : Instruction) (count : Nat) (machine : Machine) :
    effect noise instruction (machine.ahead count) =
      (effect (noise.skip count) instruction machine).ahead count := by
  cases instruction with
  | ret => simp only [effect_ret]; rfl
  | call target =>
      rw [effect_call, effect_call, apply_ite (ahead count)]
      rfl
  | awaitKey x =>
      simp only [effect_awaitKey, ahead_keypad]
      split <;> rfl
  | _ => rfl

/-- Control flow does not depend on how many numbers were used. -/
theorem plan_ahead (count : Nat) (machine : Machine) :
    (machine.ahead count).plan = machine.plan :=
  plan_congr rfl rfl rfl rfl rfl

theorem complete_ahead (noise : Noise) (plan : Plan) (count : Nat) (machine : Machine) :
    complete noise plan (machine.ahead count) =
      (complete (noise.skip count) plan machine).ahead count := by
  unfold complete
  rw [effect_ahead]
  rfl

theorem next_ahead (noise : Noise) (count : Nat) (machine : Machine) :
    (machine.ahead count).next noise = (machine.next (noise.skip count)).map (ahead count) :=
  next_change rfl rfl rfl (plan_ahead count machine) (fun _ _ => rfl)
    fun plan _ _ => complete_ahead noise plan count machine

/-- A result whose state has some numbers used before. -/
def aheadResult (count : Nat) :
    EStateM.Result Error Machine Unit → EStateM.Result Error Machine Unit
  | .ok _ machine => .ok () (machine.ahead count)
  | .error failure machine => .error failure (machine.ahead count)

theorem step_ahead (noise : Noise) (count : Nat) (machine : Machine) :
    step noise (machine.ahead count) = aheadResult count (step (noise.skip count) machine) := by
  rw [step_eq, step_eq, next_ahead]
  cases machine.next (noise.skip count) <;> rfl

/-- By induction on the number of steps. -/
theorem run_ahead (noise : Noise) (steps count : Nat) (machine : Machine) :
    run noise steps (machine.ahead count) =
      aheadResult count (run (noise.skip count) steps machine) := by
  induction steps generalizing machine with
  | zero => rfl
  | succ steps ih =>
      rw [run_succ, run_succ, step_ahead]
      cases step (noise.skip count) machine with
      | ok _ after => exact ih after
      | error failure after => rfl

theorem runEntries_ahead (noise : Noise) (steps count : Nat) (machine : Machine) :
    (machine.ahead count).runEntries noise steps =
      machine.runEntries (noise.skip count) steps := by
  induction steps generalizing machine with
  | zero => rfl
  | succ steps ih =>
      rw [runEntries, runEntries, step_ahead]
      cases step (noise.skip count) machine with
      | ok _ after => exact congrArg (machine.announcement ++ ·) (ih after)
      | error failure after => rfl

/-- Loading reports the same on every machine. -/
theorem loadEntries_eq (rom : Rom) (machine other : Machine) :
    machine.loadEntries rom = other.loadEntries rom := by
  simp only [loadEntries, load_run]
  cases Memory.initial.load rom <;> rfl

end Machine

namespace Operation

variable {noise : Noise} {machine : Machine}

/-- What operations performed in order report. -/
def report (noise : Noise) : List Operation → Machine → List Entry
  | [], _ => []
  | operation :: rest, machine =>
      operation.entries noise machine ++ report noise rest (operation.perform noise machine).2

theorem ofResult_ahead (reply : Reply) (count : Nat) (result : EStateM.Result Error Machine Unit) :
    Reply.ofResult reply (Machine.aheadResult count result) =
      ((Reply.ofResult reply result).1, (Reply.ofResult reply result).2.ahead count) := by
  cases result <;> rfl

/-- A machine that has used some numbers before does what one does that has
never seen them. -/
theorem perform_ahead (noise : Noise) (operation : Operation) (count : Nat) (machine : Machine) :
    operation.perform noise (machine.ahead count) =
      ((operation.perform (noise.skip count) machine).1,
        (operation.perform (noise.skip count) machine).2.ahead count) := by
  cases operation with
  | load rom =>
      have loaded : Machine.load rom (machine.ahead count) =
          Machine.aheadResult count (Machine.load rom machine) := by
        rw [Machine.load_run, Machine.load_run]
        cases Memory.initial.load rom <;> rfl
      rw [perform, loaded, ofResult_ahead]
      rfl
  | step => rw [perform, Machine.step_ahead, ofResult_ahead]; rfl
  | run steps => rw [perform, Machine.run_ahead, ofResult_ahead]; rfl
  | reset =>
      have blank : Machine.reset (machine.ahead count) =
          Machine.aheadResult count (Machine.reset machine) := by
        rw [Machine.reset, Machine.modify_run, Machine.modify_run]
        rfl
      rw [perform, blank, ofResult_ahead]
      rfl
  | tick | setKey | releaseKeys | takeRedraw => rfl

theorem performAll_ahead (noise : Noise) (operations : List Operation) (count : Nat)
    (machine : Machine) :
    performAll noise operations (machine.ahead count) =
      ((performAll (noise.skip count) operations machine).1,
        (performAll (noise.skip count) operations machine).2.ahead count) := by
  induction operations generalizing machine with
  | nil => rfl
  | cons operation rest ih => simp only [performAll, perform_ahead, ih]

theorem entries_ahead (noise : Noise) (operation : Operation) (count : Nat) (machine : Machine) :
    operation.entries noise (machine.ahead count) = operation.entries (noise.skip count) machine := by
  cases operation with
  | load rom => exact Machine.loadEntries_eq rom (machine.ahead count) machine
  | step => exact Machine.runEntries_ahead noise 1 count machine
  | run steps => exact Machine.runEntries_ahead noise steps count machine
  | _ => rfl

theorem report_ahead (noise : Noise) (operations : List Operation) (count : Nat)
    (machine : Machine) :
    report noise operations (machine.ahead count) =
      report (noise.skip count) operations machine := by
  induction operations generalizing machine with
  | nil => rfl
  | cons operation rest ih => simp only [report, entries_ahead, perform_ahead, ih]

end Operation

/-! ## Memory with a program -/

namespace Memory

/-- The font, a program behind it, and zeros everywhere else. -/
structure Holds (memory : Memory) (rom : Rom) : Prop where
  font_eq : ∀ position < 0x50, font[position]? = some (memory.ringByte position)
  program_eq : ∀ offset < rom.size, rom.bytes[offset]? = some (memory.ringByte (0x200 + offset))
  zero_between : ∀ position, 0x50 ≤ position → position < 0x200 → memory.ringByte position = 0
  zero_behind : ∀ position, 0x200 + rom.size ≤ position → position < 0x1000 →
    memory.ringByte position = 0

theorem ringByte_initial_of_ge {position : Nat} (behind : 0x50 ≤ position)
    (inside : position < 0x1000) : initial.ringByte position = 0 := by
  rw [ringByte_initial inside, Array.getElem?_eq_none (by rw [font_size]; exact behind)]
  rfl

theorem holds_of_load {loaded : Memory} {rom : Rom} (copied : initial.load rom = .ok loaded) :
    loaded.Holds rom := by
  have fits : rom.size ≤ 0xDFF := size_le_of_load copied
  have outside {position : Nat} (inside : position < 0x1000)
      (elsewhere : position < 0x200 ∨ 0x200 + rom.size ≤ position) :
      loaded.ringByte position = initial.ringByte position := by
    rw [ringByte_load copied inside, if_neg (by omega)]
  refine ⟨?_, ?_, ?_, ?_⟩
  · intro position low
    have glyphs : position < font.size := by rw [font_size]; exact low
    rw [outside (by omega) (.inl (by omega)), ringByte_initial (by omega),
      Array.getElem?_eq_getElem glyphs]
    rfl
  · intro offset listed
    have stored : offset < rom.bytes.size := listed
    rw [ringByte_load copied (by omega), if_pos (by omega), Nat.add_sub_cancel_left, Rom.byte,
      Array.getElem?_eq_getElem stored]
    rfl
  · intro position behind before
    rw [outside (by omega) (.inl before), ringByte_initial_of_ge behind (by omega)]
  · intro position behind inside
    rw [outside inside (.inr behind), ringByte_initial_of_ge (by omega) inside]

end Memory

/-! ## Machines with a program -/

namespace Machine

open Operation

/-- Whatever was done to a machine, loading leaves a new one behind. -/
theorem exists_perform_load (rom : Rom) : ∃ (reply : Reply) (memory : Memory),
    ∀ (noise : Noise) (machine : Machine), (Operation.load rom).perform noise machine =
      (reply, ahead machine.drawn { initial with memory }) := by
  cases copied : Memory.initial.load rom with
  | error failure =>
      refine ⟨.failed failure, Memory.initial, fun noise machine => ?_⟩
      rw [perform, load_run, copied]
      rfl
  | ok memory =>
      refine ⟨.done, memory, fun noise machine => ?_⟩
      rw [perform, load_run, copied]
      rfl

/-- Loading gives the same machine whatever was done before: a new one with the
program behind the font and zeros everywhere else or, if the program is too
large, a new one without it.  Only the place in the noise is kept.  So if two
machines see the same random numbers from then on, they give the same replies,
report the same and agree in everything but that place, after any operations. -/
theorem loading_forgets_the_past (rom : Rom) :
    (rom.size ≤ 0xDFF → ∃ memory : Memory, memory.Holds rom ∧ ∀ machine : Machine,
      load rom machine = .ok () { initial with memory, drawn := machine.drawn }) ∧
    (0xDFF < rom.size → ∀ machine : Machine,
      load rom machine =
        .error (.romTooLarge rom.size 0xDFF) { initial with drawn := machine.drawn }) ∧
    ∀ (first second : Machine) (noise other : Noise),
      (∀ k, noise (first.drawn + k) = other (second.drawn + k)) →
      ∀ later : List Operation,
        (performAll noise (.load rom :: later) first).1 =
            (performAll other (.load rom :: later) second).1 ∧
          report noise (.load rom :: later) first = report other (.load rom :: later) second ∧
          (stateAfter noise (.load rom :: later) first).exceptNoise =
            (stateAfter other (.load rom :: later) second).exceptNoise := by
  refine ⟨?_, ?_, ?_⟩
  · intro fits
    rcases Memory.initial.exists_load fits with ⟨memory, copied⟩
    refine ⟨memory, Memory.holds_of_load copied, fun machine => ?_⟩
    rw [load_run, copied]
  · intro large machine
    have refused : Memory.initial.load rom = .error (.romTooLarge rom.size 0xDFF) :=
      if_neg (Nat.not_le.mpr large)
    rw [load_run, refused]
  · intro first second noise other same later
    have remaining : noise.skip first.drawn = other.skip second.drawn := funext same
    rcases exists_perform_load rom with ⟨reply, memory, loaded⟩
    refine ⟨?_, ?_, ?_⟩
    · simp only [performAll, loaded, performAll_ahead, remaining]
    · simp only [report, loaded, report_ahead, remaining, entries, loadEntries_eq rom first second]
    · simp only [stateAfter, performAll, loaded, performAll_ahead, remaining, exceptNoise_ahead]

/-- A program that draws a random number, loaded again after it has run with a
key held down and with the periods of the timers passing. -/
theorem program_starts_again :
    let rom : Rom := ⟨#[0xC0, 0x0F, 0xF0, 0x0A]⟩
    let large : Rom := ⟨Array.replicate 0xE00 0⟩
    let noise : Noise := fun k => UInt32.ofNat k
    let used := stateAfter noise [.load rom, .run 2, .tick, .setKey 5 true, .step] initial
    let shifted : Noise := fun k => noise (k - used.drawn)
    (∃ memory : Memory, memory.Holds rom ∧
        load rom used = .ok () { initial with memory, drawn := used.drawn }) ∧
      load large used = .error (.romTooLarge 0xE00 0xDFF) { initial with drawn := used.drawn } ∧
      (performAll noise [.load rom, .run 2] initial).1 =
        (performAll shifted [.load rom, .run 2] used).1 := by
  intro rom large noise used shifted
  have same (k : Nat) : noise (0 + k) = shifted (used.drawn + k) := by
    change noise (0 + k) = noise (used.drawn + k - used.drawn)
    rw [Nat.zero_add, Nat.add_sub_cancel_left]
  have size : large.size = 0xE00 := Array.size_replicate
  rcases loading_forgets_the_past rom with ⟨succeeds, _, later⟩
  rcases loading_forgets_the_past large with ⟨_, fails, _⟩
  rcases succeeds (by decide) with ⟨memory, holds, loaded⟩
  refine ⟨⟨memory, holds, loaded used⟩, ?_, (later initial used noise shifted same [.run 2]).1⟩
  have refused := fails (by rw [size]; decide) used
  rwa [size] at refused

end Machine
end Chip8
