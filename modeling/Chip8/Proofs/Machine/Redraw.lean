import Chip8.Proofs.Machine.Invariant

namespace Chip8

/-!
# The redraw mark

The screen carries a mark that it has to be shown anew.  Nothing but taking the
mark looks at it, so machines that differ in it only behave in the same way, and
nothing but taking it clears it: a screen that is not marked is the screen it
was before.
-/

namespace Machine

variable {noise : Noise} {machine before middle after : Machine}

/-! ## Machines up to the mark -/

/-- The machine with the mark taken. -/
def unmarked (machine : Machine) : Machine :=
  machine.takeRedraw.2

@[simp] theorem unmarked_pc (machine : Machine) : machine.unmarked.pc = machine.pc := rfl

@[simp] theorem unmarked_keypad (machine : Machine) :
    machine.unmarked.keypad = machine.keypad := rfl

@[simp] theorem unmarked_awaiting (machine : Machine) :
    machine.unmarked.awaiting = machine.awaiting := rfl

theorem effect_unmarked (noise : Noise) (instruction : Instruction) (machine : Machine) :
    (effect noise instruction machine.unmarked).unmarked =
      (effect noise instruction machine).unmarked := by
  cases instruction with
  | ret => simp only [effect_ret]; rfl
  | call target =>
      rw [effect_call, effect_call, apply_ite unmarked, apply_ite unmarked]
      rfl
  | awaitKey x =>
      simp only [effect_awaitKey, unmarked_keypad]
      split <;> rfl
  | _ => rfl

theorem plan_unmarked (machine : Machine) : machine.unmarked.plan = machine.plan :=
  plan_congr rfl rfl rfl rfl rfl

theorem complete_unmarked (noise : Noise) (plan : Plan) (machine : Machine) :
    (complete noise plan machine.unmarked).unmarked = (complete noise plan machine).unmarked :=
  congrArg
    (fun after : Machine =>
      { after with
        pc := plan.target.getD machine.pc
        recent := ((⟨machine.pc, plan.opcode⟩ : Executed) :: machine.recent).take historyCapacity })
    (effect_unmarked noise plan.instruction machine)

theorem next_unmarked (noise : Noise) (machine : Machine) :
    (machine.unmarked.next noise).map unmarked = (machine.next noise).map unmarked := by
  unfold next
  simp only [unmarked_awaiting, unmarked_keypad, unmarked_pc, plan_unmarked]
  cases machine.awaiting with
  | some x =>
      cases machine.keypad.firstDown with
      | none => rfl
      | some key => cases checkStart (machine.pc + 2) <;> rfl
  | none =>
      cases machine.plan with
      | error failure => rfl
      | ok plan => exact congrArg Except.ok (complete_unmarked noise plan machine)

/-- A result with the mark taken. -/
def unmarkedResult : EStateM.Result Error Machine Unit → EStateM.Result Error Machine Unit
  | .ok _ machine => .ok () machine.unmarked
  | .error failure machine => .error failure machine.unmarked

theorem unmarkedResult_settle (machine : Machine) (answer : Except Error Machine) :
    unmarkedResult (settle machine answer) = settle machine.unmarked (answer.map unmarked) := by
  cases answer <;> rfl

theorem step_unmarked (noise : Noise) (machine : Machine) :
    unmarkedResult (step noise machine.unmarked) = unmarkedResult (step noise machine) := by
  rw [step_eq, step_eq, unmarkedResult_settle, unmarkedResult_settle, next_unmarked]
  rfl

/-- By induction on the number of steps. -/
theorem run_unmarked (noise : Noise) (count : Nat) (machine : Machine) :
    unmarkedResult (run noise count machine.unmarked) =
      unmarkedResult (run noise count machine) := by
  induction count generalizing machine with
  | zero => rfl
  | succ count ih =>
      have onward (machine : Machine) : unmarkedResult (run noise (count + 1) machine) =
          match unmarkedResult (step noise machine) with
          | .ok _ after => unmarkedResult (run noise count after)
          | .error failure after => .error failure after := by
        rw [run_succ]
        cases step noise machine with
        | ok _ after => exact (ih after).symm
        | error failure after => rfl
      rw [onward, onward, step_unmarked]

/-! ## Screens that were changed -/

/-- The second machine is marked or has the screen of the first. -/
def Marks (before after : Machine) : Prop :=
  after.screen.changed = true ∨ after.screen = before.screen

theorem marks_refl (machine : Machine) : Marks machine machine :=
  Or.inr rfl

theorem Marks.trans (first : Marks before middle) (second : Marks middle after) :
    Marks before after := by
  rcases second with marked | same
  · exact Or.inl marked
  · unfold Marks
    rwa [same]

theorem effect_marks (noise : Noise) (instruction : Instruction) (machine : Machine) :
    Marks machine (effect noise instruction machine) := by
  cases instruction with
  | clearScreen | draw x y height => exact Or.inl rfl
  | ret => rw [effect_ret]; exact Or.inr rfl
  | call target => rw [effect_call]; split <;> exact Or.inr rfl
  | awaitKey x => rw [effect_awaitKey]; split <;> exact Or.inr rfl
  | _ => exact Or.inr rfl

theorem next_marks (came : machine.next noise = .ok after) : Marks machine after := by
  cases progress_of_step (step_eq_ok_iff.mpr came) with
  | wait | receive => exact Or.inr rfl
  | complete active permits => exact effect_marks noise _ machine

theorem run_marks (noise : Noise) (count : Nat) (machine : Machine) :
    Marks machine (reached (run noise count machine)) := by
  induction count generalizing machine with
  | zero => exact marks_refl machine
  | succ count ih =>
      rw [run_succ, step_eq]
      cases came : machine.next noise with
      | error failure => exact marks_refl machine
      | ok after => exact (next_marks came).trans (ih after)

end Machine

/-! ## Operations -/

namespace Operation

variable {noise : Noise} {operation : Operation} {operations : List Operation} {machine : Machine}

theorem ofResult_unmarked {first second : EStateM.Result Error Machine Unit}
    (same : Machine.unmarkedResult first = Machine.unmarkedResult second) (reply : Reply) :
    (Reply.ofResult reply first).1 = (Reply.ofResult reply second).1 ∧
      (Reply.ofResult reply first).2.unmarked = (Reply.ofResult reply second).2.unmarked := by
  have replied (result : EStateM.Result Error Machine Unit) :
      Reply.ofResult reply (Machine.unmarkedResult result) =
        ((Reply.ofResult reply result).1, (Reply.ofResult reply result).2.unmarked) := by
    cases result <;> rfl
  have equal := congrArg (Reply.ofResult reply) same
  rw [replied, replied] at equal
  exact Prod.mk.inj equal

/-- No operation but taking the mark looks at it. -/
theorem perform_unmarked (leaves : operation ≠ .takeRedraw) (noise : Noise) (machine : Machine) :
    (operation.perform noise machine.unmarked).1 = (operation.perform noise machine).1 ∧
      (operation.perform noise machine.unmarked).2.unmarked =
        (operation.perform noise machine).2.unmarked := by
  cases operation with
  | load rom =>
      refine ofResult_unmarked ?_ .done
      rw [Machine.load_run, Machine.load_run]
      rfl
  | step => exact ofResult_unmarked (Machine.step_unmarked noise machine) .done
  | run count => exact ofResult_unmarked (Machine.run_unmarked noise count machine) (.ran count)
  | takeRedraw => exact absurd rfl leaves
  | reset | tick | setKey | releaseKeys => exact ⟨rfl, rfl⟩

/-- Machines that differ in the mark only give the same reply, and differ in the
mark only afterwards. -/
theorem perform_congr (leaves : operation ≠ .takeRedraw) {other : Machine}
    (alike : machine.unmarked = other.unmarked) :
    (operation.perform noise machine).1 = (operation.perform noise other).1 ∧
      (operation.perform noise machine).2.unmarked = (operation.perform noise other).2.unmarked := by
  have first := perform_unmarked leaves noise machine
  have second := perform_unmarked leaves noise other
  rw [alike] at first
  exact ⟨first.1.symm.trans second.1, first.2.symm.trans second.2⟩

/-- No operation but taking the mark clears it. -/
theorem perform_marks (leaves : operation ≠ .takeRedraw) (noise : Noise) (machine : Machine) :
    machine.Marks (operation.perform noise machine).2 := by
  cases operation with
  | reset => exact Or.inl rfl
  | load rom =>
      rw [perform, Machine.load_run]
      cases Memory.initial.load rom <;> exact Or.inl rfl
  | step =>
      rw [perform, Machine.step_eq]
      cases came : machine.next noise with
      | error failure => exact Machine.marks_refl machine
      | ok after => exact Machine.next_marks came
  | run count =>
      have marks := Machine.run_marks noise count machine
      rw [perform]
      cases ran : Machine.run noise count machine <;> rwa [ran] at marks
  | takeRedraw => exact absurd rfl leaves
  | tick | setKey | releaseKeys => exact Machine.marks_refl machine

theorem stateAfter_marks (leave : .takeRedraw ∉ operations) (noise : Noise) (machine : Machine) :
    machine.Marks (stateAfter noise operations machine) := by
  induction operations generalizing machine with
  | nil => exact Machine.marks_refl machine
  | cons operation rest ih =>
      have first := perform_marks (Ne.symm (List.ne_of_not_mem_cons leave)) noise machine
      exact first.trans (ih (List.not_mem_of_not_mem_cons leave) _)

end Operation
end Chip8
