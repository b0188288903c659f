import Chip8.Proofs.Machine.Trace
import Chip8.Proofs.Memory.Ring

namespace Chip8

/-!
# Random numbers

One instruction draws a random number, and it draws one each time it is
executed.  Failing steps draw none, and no operation gives a number back or
skips one, so the instructions that have drawn and the numbers that were used
correspond one to one.

What a machine does depends on the random numbers only through the bits that
these instructions let through.
-/

/-- What the random instruction of an opcode makes of a random number: its low
eight bits, as far as the opcode lets them through. -/
def Opcode.masked (op : Opcode) (number : UInt32) : UInt8 :=
  UInt8.ofNat (number.toNat % 256) &&& op.kk

/-- A step that has executed the instruction that draws a random number. -/
def Performed.Draws (performed : Performed) : Prop :=
  performed.Executes ∧ performed.opcode.identifier = 0xC

instance : DecidablePred Performed.Draws :=
  fun _ => inferInstanceAs (Decidable (_ ∧ _))

/-- The steps that have drawn a random number, in order. -/
def draws (past : List Performed) : List Performed :=
  past.filter fun entry => entry.Draws

theorem Opcode.and_toUInt8 (op : Opcode) (number : UInt32) :
    op.kk &&& number.toUInt8 = op.masked number := by
  have low : number.toUInt8 = UInt8.ofNat (number.toNat % 256) := by
    apply UInt8.toNat_inj.mp
    simp
  rw [masked, low, UInt8.and_comm]

namespace Instruction

theorem decode_of_identifier_eq_random {op : Opcode} (first : op.identifier = 0xC) :
    decode op = .ok (.random op.x op.kk) := by
  rw [decode_eq_ok_iff, ofOpcode?]
  simp only [first]

theorem identifier_of_decode_random {op : Opcode} {x : Reg} {mask : UInt8}
    (decoded : decode op = .ok (.random x mask)) : op.identifier = 0xC := by
  rw [← opcode_of_decode decoded]
  exact identifier_byteForm 0xC x mask

end Instruction

namespace Machine

variable {noise other : Noise} {machine : Machine} {instruction : Instruction} {plan : Plan}

theorem Permits.eq_random (permits : Permits machine plan)
    (first : (machine.memory.word machine.pc).identifier = 0xC) :
    plan.instruction = .random (machine.memory.word machine.pc).x
      (machine.memory.word machine.pc).kk := by
  have decoded := permits.decoded
  rw [permits.opcode_eq, Instruction.decode_of_identifier_eq_random first] at decoded
  exact (Except.ok.inj decoded).symm

theorem Permits.ne_random (permits : Permits machine plan)
    (first : (machine.memory.word machine.pc).identifier ≠ 0xC) (x : Reg) (mask : UInt8) :
    plan.instruction ≠ .random x mask := by
  intro draws
  have decoded := permits.decoded
  rw [permits.opcode_eq, draws] at decoded
  exact first (Instruction.identifier_of_decode_random decoded)

theorem effect_random (noise : Noise) (x : Reg) (mask : UInt8) (machine : Machine) :
    effect noise (.random x mask) machine = drawRandom noise x mask machine := by
  rfl

theorem effect_drawn_of_ne (different : ∀ x mask, instruction ≠ .random x mask) :
    (effect noise instruction machine).drawn = machine.drawn := by
  cases instruction with
  | random x mask => exact absurd rfl (different x mask)
  | ret => rw [effect_ret]
  | call target => rw [effect_call]; split <;> rfl
  | awaitKey x => rw [effect_awaitKey]; split <;> rfl
  | _ => rfl

theorem effect_noise_of_ne (different : ∀ x mask, instruction ≠ .random x mask) :
    effect other instruction machine = effect noise instruction machine := by
  cases instruction with
  | random x mask => exact absurd rfl (different x mask)
  | _ => rfl

/-- Numbers that agree as far as the opcode lets them through have the same effect. -/
theorem Permits.effect_congr_noise (permits : Permits machine plan)
    (agree : (machine.memory.word machine.pc).identifier = 0xC →
      (machine.memory.word machine.pc).masked (other machine.drawn) =
        (machine.memory.word machine.pc).masked (noise machine.drawn)) :
    effect other plan.instruction machine = effect noise plan.instruction machine := by
  by_cases first : (machine.memory.word machine.pc).identifier = 0xC
  · have bits := agree first
    rw [← Opcode.and_toUInt8, ← Opcode.and_toUInt8] at bits
    rw [permits.eq_random first, effect_random, effect_random, drawRandom, drawRandom, bits]
  · exact effect_noise_of_ne (permits.ne_random first)

/-- A step is the same under other random numbers if the number that it draws,
should it draw one, is the same as far as the opcode lets it through. -/
theorem step_congr_noise
    (agree : (Operation.performed noise .step machine).Draws →
      (machine.memory.word machine.pc).masked (other machine.drawn) =
        (machine.memory.word machine.pc).masked (noise machine.drawn)) :
    step other machine = step noise machine := by
  cases active : machine.awaiting with
  | some x => simp only [step_eq, next, active]
  | none =>
      cases planned : machine.plan with
      | error failure => simp only [step_eq, next, active, planned, bind, Except.bind]
      | ok plan =>
          have permits := permits_of_plan planned
          have stepped := step_of_permits noise active permits
          have done : (Operation.step.perform noise machine).1 = .done := by
            rw [Operation.perform, stepped, Reply.ofResult]
          have same : effect other plan.instruction machine =
              effect noise plan.instruction machine :=
            permits.effect_congr_noise fun first => agree ⟨⟨rfl, done, active⟩, first⟩
          rw [step_of_permits other active permits, stepped, complete, complete, same]

/-- A machine that starts afresh keeps its place in the random numbers. -/
theorem drawn_afresh (memory : Memory) (count : Nat) :
    ({ initial with memory, drawn := count } : Machine).drawn = count := by
  rfl

end Machine

namespace Operation

variable {noise : Noise} {machine : Machine} {operation : Operation} {past : List Performed}

/-! ## One operation -/

theorem drawn_of_draws (drawing : (performed noise operation machine).Draws) :
    (operation.perform noise machine).2.drawn = machine.drawn + 1 := by
  rcases exists_plan_of_executes drawing.1 with ⟨plan, permits, completed⟩
  rw [completed, Machine.complete, permits.eq_random drawing.2]
  rfl

theorem drawn_of_not_draws (single : operation.Single)
    (idle : ¬ (performed noise operation machine).Draws) :
    (operation.perform noise machine).2.drawn = machine.drawn := by
  by_cases executes : (performed noise operation machine).Executes
  · have first : (machine.memory.word machine.pc).identifier ≠ 0xC :=
      fun first => idle ⟨executes, first⟩
    rcases exists_plan_of_executes executes with ⟨plan, permits, completed⟩
    rw [completed]
    exact Machine.effect_drawn_of_ne (permits.ne_random first)
  · cases operation with
    | run count => exact absurd rfl (single count)
    | tick | setKey key pressed | releaseKeys | takeRedraw => rfl
    | reset => exact Machine.drawn_afresh Memory.initial machine.drawn
    | load rom =>
        rw [perform, Machine.ofResult_snd, Machine.load_run]
        cases Memory.initial.load rom with
        | error failure => exact Machine.drawn_afresh Memory.initial machine.drawn
        | ok memory => exact Machine.drawn_afresh memory machine.drawn
    | step =>
        rcases after_of_not_executes executes with same | ⟨x, key, same⟩
        · rw [same]
        · rw [same]
          rfl

theorem register_of_draws (drawing : (performed noise operation machine).Draws) :
    (operation.perform noise machine).2.registers.get (machine.memory.word machine.pc).x =
      (machine.memory.word machine.pc).masked (noise machine.drawn) := by
  rcases exists_plan_of_executes drawing.1 with ⟨plan, permits, completed⟩
  rw [completed, Machine.complete, permits.eq_random drawing.2, ← Opcode.and_toUInt8]
  exact (Registers.get_set _ _ _ _).trans (if_pos rfl)

/-! ## Every list of operations -/

/-- The machine has drawn as many numbers as there are draws, and the draw at a
place has taken the number at that place. -/
def DrawnInOrder (past : List Performed) (machine : Machine) : Prop :=
  machine.drawn = (draws past).length ∧
    ∀ (place : Nat) (entry : Performed), (draws past)[place]? = some entry →
      entry.before.drawn = place

theorem DrawnInOrder.performed (ordered : DrawnInOrder past machine) (noise : Noise)
    (single : operation.Single) :
    DrawnInOrder (past ++ [performed noise operation machine])
      (operation.perform noise machine).2 := by
  rcases ordered with ⟨count, places⟩
  unfold DrawnInOrder draws
  rw [List.filter_append, ← draws]
  by_cases drawing : (Operation.performed noise operation machine).Draws
  · rw [List.filter_cons_of_pos (by simpa using drawing), List.filter_nil]
    refine ⟨?_, ?_⟩
    · rw [drawn_of_draws drawing, count, List.length_append]
      rfl
    · intro place entry found
      rcases Nat.lt_or_ge place (draws past).length with earlier | last
      · rw [List.getElem?_append_left earlier] at found
        exact places place entry found
      · rw [List.getElem?_append_right last, List.getElem?_singleton] at found
        split at found
        · cases found
          change machine.drawn = place
          omega
        · cases found
  · rw [List.filter_cons_of_neg (by simpa using drawing), List.filter_nil, List.append_nil]
    exact ⟨(drawn_of_not_draws single drawing).trans count, places⟩

theorem drawnInOrder_trace (noise : Noise) (operations : List Operation) :
    DrawnInOrder (trace noise operations Machine.initial)
      (stateAfter noise operations Machine.initial) := by
  refine trace_induction ?_ ⟨rfl, fun place entry none => by cases none⟩ operations
  intro past machine operation single ordered
  exact ordered.performed noise single

/-- As many random numbers are used as instructions that draw one have
succeeded, in whatever order operations succeed and fail, and the instruction at
a place has put the number at that place into its register, as far as its opcode
lets the low eight bits through.  Other numbers lead to the same replies and
states if they agree as far as those opcodes let them through. -/
theorem random_numbers_drawn_once (noise : Noise) (operations : List Operation) :
    let drawing := draws (trace noise operations Machine.initial)
    (stateAfter noise operations Machine.initial).drawn = drawing.length ∧
    (∀ (place : Nat) (entry : Performed), drawing[place]? = some entry →
      entry.after.registers.get entry.opcode.x = entry.opcode.masked (noise place)) ∧
    (∀ other : Noise,
      (∀ (place : Nat) (entry : Performed), drawing[place]? = some entry →
        entry.opcode.masked (other place) = entry.opcode.masked (noise place)) →
      performAll other operations Machine.initial = performAll noise operations Machine.initial ∧
        trace other operations Machine.initial = trace noise operations Machine.initial) := by
  intro drawing
  rcases drawnInOrder_trace noise operations with ⟨count, places⟩
  refine ⟨count, ?_, ?_⟩
  · intro place entry found
    rcases List.mem_filter.mp (List.mem_of_getElem? found) with ⟨member, draws⟩
    have genuine := performed_of_mem_trace member
    have draws := of_decide_eq_true draws
    rw [genuine] at draws
    have written := register_of_draws draws
    rw [places place entry found] at written
    rw [genuine]
    exact written
  · intro other agree
    refine trace_congr fun entry member isStep => ?_
    have genuine := performed_of_mem_trace member
    rw [isStep] at genuine
    refine Machine.step_congr_noise fun draws => ?_
    rw [← genuine] at draws
    have listed : entry ∈ drawing := List.mem_filter.mpr ⟨member, decide_eq_true draws⟩
    rcases List.mem_iff_getElem?.mp listed with ⟨place, found⟩
    rw [places place entry found]
    exact agree place entry found

/-- A program that asks for the low four bits of a random number cannot tell two
numbers apart that agree in them. -/
theorem low_digit_is_drawn : ∃ rom : Rom,
    performAll (fun _ => 0x115) [.load rom, .step] Machine.initial =
        performAll (fun _ => 0x005) [.load rom, .step] Machine.initial ∧
      (stateAfter (fun _ => 0x005) [.load rom, .step] Machine.initial).drawn = 1 ∧
      (stateAfter (fun _ => 0x005) [.load rom, .step] Machine.initial).registers.get 0 = 5 := by
  let rom : Rom := ⟨#[0xC0, 0x0F]⟩
  have fits : rom.size ≤ Memory.romLimit := by decide
  rcases Memory.initial.exists_load fits with ⟨memory, copied⟩
  have word : memory.word 0x200 = 0xC00F := @Memory.word_opcode _ _ copied 0 (by decide)
  let machine : Machine := { Machine.initial with memory }
  let plan : Machine.Plan := ⟨0xC00F, .random 0 0x0F, some 0x202⟩
  have permits : Machine.Permits machine plan := {
    start := show Machine.IsStart programStart by decide
    opcode_eq := word.symm
    decoded := Instruction.decode_eq_ok_iff.mpr (by decide)
    course := ⟨.next, rfl, rfl⟩
    target_start := by rintro target ⟨⟩; decide }
  let drawn := performed (fun _ => 0x005) .step machine
  have executes : drawn.Executes := by
    refine ⟨rfl, ?_, rfl⟩
    change (Reply.ofResult .done (Machine.step (fun _ => 0x005) machine)).1 = .done
    rw [Machine.step_of_permits _ rfl permits]
    rfl
  have opcode : drawn.opcode = 0xC00F := word
  have loaded : ((Operation.load rom).perform (fun _ => 0x005) Machine.initial).2 = machine := by
    rw [perform, Machine.load_run, copied]
    rfl
  have listed : draws (trace (fun _ => 0x005) [.load rom, .step] Machine.initial) = [drawn] := by
    have silent : ¬ (performed (fun _ => 0x005) (.load rom) Machine.initial).Draws := by
      rintro ⟨⟨impossible, _⟩, _⟩
      cases impossible
    have draws : drawn.Draws := ⟨executes, by rw [opcode]; rfl⟩
    simp only [trace, loaded, traceOf, Chip8.draws, List.cons_append, List.nil_append]
    rw [List.filter_cons_of_neg (by simpa using silent),
      List.filter_cons_of_pos (by simpa using draws)]
    rfl
  have after : stateAfter (fun _ => 0x005) [.load rom, .step] Machine.initial = drawn.after := by
    rw [stateAfter_cons, loaded, stateAfter_cons, stateAfter_nil]
    rfl
  have main := random_numbers_drawn_once (fun _ => 0x005) [.load rom, .step]
  simp only [listed] at main
  rcases main with ⟨count, written, agree⟩
  refine ⟨rom, (agree (fun _ => 0x115) ?_).1, count, ?_⟩
  · intro place entry found
    have same := List.mem_singleton.mp (List.mem_of_getElem? found)
    rw [same, opcode]
    rfl
  · rw [after]
    have value := written 0 drawn rfl
    have register : Opcode.x 0xC00F = 0 := by decide
    have bits : Opcode.masked 0xC00F 0x005 = 5 := by decide
    rwa [opcode, register, bits] at value

end Operation
end Chip8
