import Chip8.Proofs.Machine.Drawing
import Chip8.Proofs.Machine.Footprint
import Chip8.Proofs.Machine.History
import Chip8.Proofs.Machine.Redraw

namespace Chip8

/-!
# When the screen has to be shown anew

The mark of the screen is compared with everything that was performed since it
was last taken.  A new machine is marked, and so is one that was reset or loaded.
Otherwise it takes a step that clears the screen or draws on it, and such a step
marks the screen also when no pixel changes.  Steps that fail do not count.

The converse, that a picture without the mark is the old picture, is what makes
it safe not to paint it again.
-/

theorem exists_last_of_mem {α : Type} {item : α} {items : List α} (member : item ∈ items) :
    ∃ before later, items = before ++ item :: later ∧ item ∉ later := by
  rcases List.eq_append_cons_of_mem (List.mem_reverse.mpr member) with ⟨later, before, split, first⟩
  refine ⟨before.reverse, later.reverse, ?_, by rwa [List.mem_reverse]⟩
  rw [← List.reverse_reverse items, split, List.reverse_append, List.reverse_cons,
    List.append_assoc, List.singleton_append]

/-- The machine was reset or loaded, or it has executed an instruction that clears
the screen or draws on it. -/
def Performed.Redraws (performed : Performed) : Prop :=
  performed.operation.restarts = true ∨
    (performed.Executes ∧ (performed.opcode = 0x00E0 ∨ performed.opcode.identifier = 0xD))

/-- What was performed since the mark was last taken. -/
def sinceTaken (past : List Performed) : List Performed :=
  past.rtakeWhile fun entry => entry.operation ≠ .takeRedraw

theorem sinceTaken_take {past : List Performed} {entry : Performed}
    (takes : entry.operation = .takeRedraw) : sinceTaken (past ++ [entry]) = [] :=
  List.rtakeWhile_concat_neg _ _ _ (by simp [takes])

theorem sinceTaken_concat {past : List Performed} {entry : Performed}
    (leaves : entry.operation ≠ .takeRedraw) :
    sinceTaken (past ++ [entry]) = sinceTaken past ++ [entry] :=
  List.rtakeWhile_concat_pos _ _ _ (by simp [leaves])

namespace Machine

theorem unmarked_lit (machine : Machine) : machine.unmarked.screen.lit = machine.screen.lit := rfl

/-- The digits of an opcode tell whether its instruction marks the screen. -/
theorem changed_effect_iff (noise : Noise) (machine : Machine) {op : Opcode}
    {instruction : Instruction} (row : Instruction.ofOpcode? op = some instruction) :
    (effect noise instruction machine).screen.changed = true ↔
      machine.screen.changed = true ∨ op = 0x00E0 ∨ op.identifier = 0xD := by
  by_cases clears : op = 0x00E0
  · subst clears
    cases row
    exact iff_of_true rfl (.inr (.inl rfl))
  by_cases draws : op.identifier = 0xD
  · have drawing := Instruction.decode_eq_ok_iff.mp (decode_of_identifier_eq_draw draws)
    rw [row] at drawing
    cases drawing
    exact iff_of_true rfl (.inr (.inr draws))
  · have kept := (footprint_effect noise machine row).screen (not_or.mpr ⟨draws, clears⟩)
    simp only [kept, clears, draws, or_false]

end Machine

namespace Operation

variable {noise : Noise} {machine : Machine} {operation : Operation} {operations : List Operation}

/-! ## One operation -/

theorem changed_of_restarts (restarts : operation.restarts = true) :
    (operation.perform noise machine).2.screen.changed = true := by
  cases operation with
  | reset => rfl
  | load rom =>
      rw [perform, Machine.load_run]
      cases Memory.initial.load rom <;> rfl
  | _ => cases restarts

theorem screen_of_not_executes (single : operation.Single) (goesOn : operation.restarts = false)
    (leaves : operation ≠ .takeRedraw) (idle : ¬ (performed noise operation machine).Executes) :
    (operation.perform noise machine).2.screen = machine.screen := by
  cases operation with
  | reset | load rom => cases goesOn
  | run count => exact absurd rfl (single count)
  | takeRedraw => exact absurd rfl leaves
  | tick | setKey key pressed | releaseKeys => rfl
  | step =>
      rcases after_of_not_executes idle with same | ⟨x, key, same⟩
      · rw [same]
      · rw [same]
        rfl

/-- What is performed marks the screen if it redraws it, and otherwise leaves the
mark alone. -/
theorem changed_perform_iff (single : operation.Single) (leaves : operation ≠ .takeRedraw) :
    (operation.perform noise machine).2.screen.changed = true ↔
      machine.screen.changed = true ∨ (performed noise operation machine).Redraws := by
  by_cases restarts : operation.restarts = true
  · exact iff_of_true (changed_of_restarts restarts) (.inr (.inl restarts))
  have goesOn : operation.restarts = false := eq_false_of_ne_true restarts
  by_cases executes : (performed noise operation machine).Executes
  · rcases exists_plan_of_executes executes with ⟨plan, permits, completed⟩
    have row := Instruction.decode_eq_ok_iff.mp permits.decoded
    rw [permits.opcode_eq] at row
    rw [completed]
    change (Machine.effect noise plan.instruction machine).screen.changed = true ↔ _
    rw [Machine.changed_effect_iff noise machine row, Performed.Redraws]
    simp only [executes, true_and]
    change _ ↔ _ ∨ operation.restarts = true ∨ _
    simp only [goesOn, Bool.false_eq_true, false_or]
    rfl
  · rw [screen_of_not_executes single goesOn leaves executes, Performed.Redraws]
    change _ ↔ _ ∨ operation.restarts = true ∨ _
    simp only [goesOn, executes, Bool.false_eq_true, false_and, or_self, or_false]

/-! ## Every list of operations -/

theorem operation_of_mem_runTrace {count : Nat} {entry : Performed}
    (member : entry ∈ runTrace noise count machine) : entry.operation = .step := by
  induction count generalizing machine with
  | zero => cases member
  | succ count ih =>
      rw [runTrace] at member
      rcases List.mem_cons.mp member with rfl | later
      · rfl
      · cases stepped : Machine.step noise machine with
        | error failure after =>
            rw [stepped] at later
            cases later
        | ok _ after =>
            rw [stepped] at later
            exact ih later

theorem takes_traceOf_iff :
    (∃ entry ∈ traceOf noise operation machine, entry.operation = .takeRedraw) ↔
      operation = .takeRedraw := by
  cases operation with
  | run count =>
      refine iff_of_false ?_ nofun
      rintro ⟨entry, member, takes⟩
      cases (operation_of_mem_runTrace member).symm.trans takes
  | _ => simp [traceOf, performed]

/-- The mark is taken in a trace exactly if it is one of the operations. -/
theorem takes_trace_iff :
    (∃ entry ∈ trace noise operations machine, entry.operation = .takeRedraw) ↔
      .takeRedraw ∈ operations := by
  induction operations generalizing machine with
  | nil => simp [trace]
  | cons operation rest ih =>
      rw [List.mem_cons, eq_comm, ← @takes_traceOf_iff noise machine operation,
        ← @ih (operation.perform noise machine).2]
      simp only [trace, List.mem_append, or_and_right, exists_or]

/-- The mark tells that it was not taken yet, or that there was a reason to set it
since then. -/
theorem changed_iff (noise : Noise) (operations : List Operation) :
    (stateAfter noise operations Machine.initial).screen.changed = true ↔
      .takeRedraw ∉ operations ∨
        ∃ entry ∈ sinceTaken (trace noise operations Machine.initial), entry.Redraws := by
  rw [← @takes_trace_iff noise Machine.initial operations]
  refine trace_induction (P := fun past machine => machine.screen.changed = true ↔
    (¬ ∃ entry ∈ past, entry.operation = .takeRedraw) ∨
      ∃ entry ∈ sinceTaken past, entry.Redraws) ?_ (iff_of_true rfl (.inl (by simp))) operations
  intro past machine operation single marked
  by_cases takes : operation = .takeRedraw
  · subst takes
    rw [sinceTaken_take rfl]
    refine iff_of_false Bool.false_ne_true ?_
    rintro (never | ⟨entry, none, _⟩)
    · exact never ⟨_, List.mem_append_right _ (.head _), rfl⟩
    · cases none
  · have leaves : (performed noise operation machine).operation ≠ .takeRedraw := takes
    rw [changed_perform_iff single takes, marked, sinceTaken_concat leaves]
    simp only [List.mem_append, List.mem_singleton, or_and_right, exists_or, exists_eq_left, leaves,
      or_false, or_assoc]

/-- **The mark is exact.** Taking it tells that the screen is due if the machine is
new and the mark was not taken before, or if since it was last taken the machine
was reset or loaded, with or without success, or has executed an instruction that
clears the screen or draws on it.  If the screen is not due, it has the pixels
that it had when the mark was last taken. -/
theorem redraw_is_due_exactly (noise : Noise) (operations : List Operation) :
    let machine := stateAfter noise operations Machine.initial
    ∃ due, (Operation.takeRedraw.perform noise machine).1 = .redraw due ∧
      (due = true ↔ .takeRedraw ∉ operations ∨
        ∃ entry ∈ sinceTaken (trace noise operations Machine.initial), entry.Redraws) ∧
      (due = false → ∃ before later, operations = before ++ .takeRedraw :: later ∧
        .takeRedraw ∉ later ∧
        machine.screen.lit = (stateAfter noise before Machine.initial).screen.lit) := by
  intro machine
  have marked := changed_iff noise operations
  refine ⟨machine.screen.changed, rfl, marked, ?_⟩
  intro settled
  have taken : .takeRedraw ∈ operations := by
    by_contra never
    rw [marked.mpr (.inl never)] at settled
    cases settled
  rcases exists_last_of_mem taken with ⟨before, later, rfl, untouched⟩
  refine ⟨before, later, rfl, untouched, ?_⟩
  have ended : machine = stateAfter noise later (stateAfter noise before Machine.initial).unmarked :=
    stateAfter_append noise before (.takeRedraw :: later) Machine.initial
  rcases stateAfter_marks untouched noise (stateAfter noise before Machine.initial).unmarked with
    marked | same
  · rw [← ended, settled] at marked
    cases marked
  · rw [ended, same, Machine.unmarked_lit]

/-- Clearing a blank screen makes it due, and once it was shown it is not due again. -/
theorem cleared_screen_is_due_once : ∃ rom : Rom,
    (takeRedraw.perform (fun _ => 0) (stateAfter (fun _ => 0) [.load rom, .takeRedraw, .step]
      Machine.initial)).1 = .redraw true ∧
    (takeRedraw.perform (fun _ => 0) (stateAfter (fun _ => 0)
      [.load rom, .takeRedraw, .step, .takeRedraw, .tick] Machine.initial)).1 = .redraw false := by
  let rom : Rom := ⟨#[0x00, 0xE0]⟩
  have fits : rom.size ≤ Memory.romLimit := by decide
  rcases Memory.initial.exists_load fits with ⟨memory, copied⟩
  have word : memory.word 0x200 = 0x00E0 := @Memory.word_opcode _ _ copied 0 (by decide)
  have shown : stateAfter (fun _ => 0) [.load rom, .takeRedraw] Machine.initial =
      Machine.unmarked { Machine.initial with memory } := by
    change Machine.unmarked ((Operation.load rom).perform (fun _ => 0) Machine.initial).2 = _
    rw [perform, Machine.load_run, copied]
    rfl
  have permits : Machine.Permits (Machine.unmarked { Machine.initial with memory })
      ⟨0x00E0, .clearScreen, some (programStart + 2)⟩ :=
    { start := show Machine.IsStart programStart by decide
      opcode_eq := word.symm
      decoded := rfl
      course := ⟨.next, rfl, rfl⟩
      target_start := by
        intro target selected
        cases selected
        decide }
  have stepped := Machine.step_of_permits (fun _ => 0) rfl permits
  have redraws : (performed (fun _ => 0) .step
      (stateAfter (fun _ => 0) [.load rom, .takeRedraw] Machine.initial)).Redraws := by
    rw [shown]
    refine .inr ⟨⟨rfl, ?_, rfl⟩, .inl word⟩
    rw [performed, perform, stepped]
    rfl
  refine ⟨rom, ?_, ?_⟩
  · rcases redraw_is_due_exactly (fun _ => 0) [.load rom, .takeRedraw, .step] with
      ⟨due, reply, exact, _⟩
    rw [reply, exact.mpr (.inr ⟨_, .head _, redraws⟩)]
  · rcases redraw_is_due_exactly (fun _ => 0) [.load rom, .takeRedraw, .step, .takeRedraw, .tick] with
      ⟨due, reply, exact, _⟩
    rw [reply]
    cases due with
    | false => rfl
    | true =>
        rcases exact.mp rfl with never | ⟨entry, member, restarts | executes⟩
        · exact absurd (.tail _ (.head _)) never
        all_goals cases List.mem_singleton.mp member
        · cases restarts
        · cases executes.1.1

end Operation
end Chip8
