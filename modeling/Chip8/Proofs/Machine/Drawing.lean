import Chip8.Proofs.Machine.Invariant
import Chip8.Proofs.Memory.Ring
import Chip8.Proofs.Screen.Painting

namespace Chip8
namespace Machine

/-!
# Drawing

A drawing instruction paints the bytes behind the index register, read on the
ring of memory, at the position that two registers name.  All three are taken
from the state before the step, also when one of the registers is the flag.
-/

/-- The sprite of a height at the index register. -/
def sprite (machine : Machine) (height : Nat) : List UInt8 :=
  (List.range height).map fun i => machine.memory.ringByte (machine.index.toNat + i)

theorem decode_of_identifier_eq_draw {op : Opcode} (first : op.identifier = 0xD) :
    Instruction.decode op = .ok (.draw op.x op.y op.n) := by
  rw [Instruction.decode_eq_ok_iff, Instruction.ofOpcode?]
  simp only [first]

theorem effect_draw (noise : Noise) (x y : Reg) (height : Fin 16) (machine : Machine) :
    effect noise (.draw x y height) machine =
      let painted := machine.screen.paint (machine.registers.get x) (machine.registers.get y)
        (machine.sprite height)
      { machine with
        screen := painted.2
        registers := machine.registers.setFlag painted.1 } := by
  rw [sprite, ← Memory.read_eq]
  rfl

/-- Only the end of memory stops a drawing step. -/
theorem exists_step_of_draw {machine : Machine} (sound : Sound machine) (noise : Noise)
    (draws : (machine.memory.word machine.pc).identifier = 0xD)
    (room : machine.pc.toNat + 2 ≤ 0xFFE) : ∃ after, step noise machine = .ok () after := by
  have active := sound.active_of_identifier_ne (by rw [draws]; decide)
  have lower := sound.start.1
  have target : IsStart (machine.pc + 2) := by
    rw [IsStart, sound.start.toNat_add_two]
    omega
  have planned : ∃ plan, machine.plan = .ok plan := by
    rw [plan_eq sound.start, decode_of_identifier_eq_draw draws]
    change ∃ plan, (do
      checkStart (machine.pc + 2)
      return Plan.mk _ _ (some (machine.pc + 2))) = Except.ok plan
    rw [checkStart_of_isStart target]
    exact ⟨_, rfl⟩
  rcases planned with ⟨plan, planned⟩
  have came : machine.next noise = .ok (complete noise plan machine) := by
    rw [next, active, planned]
    rfl
  exact ⟨_, step_eq_ok_iff.mpr came⟩

/-- A drawing step leaves the painted screen and the flag of the collision. -/
theorem screen_and_flag_of_draw {noise : Noise} {machine after : Machine} (sound : Sound machine)
    (draws : (machine.memory.word machine.pc).identifier = 0xD)
    (stepped : step noise machine = .ok () after) :
    let op := machine.memory.word machine.pc
    let painted := machine.screen.paint (machine.registers.get op.x) (machine.registers.get op.y)
      (machine.sprite op.n)
    after.screen = painted.2 ∧ (after.registers.get 0xF = 1 ↔ painted.1 = true) ∧
      (after.registers.get 0xF = 1 ∨ after.registers.get 0xF = 0) := by
  intro op painted
  have active := sound.active_of_identifier_ne (by rw [draws]; decide)
  rcases complete_of_step active (decode_of_identifier_eq_draw draws) stepped with
    ⟨plan, permits, carries, rfl⟩
  rw [complete, carries, effect_draw]
  have flag : (machine.registers.setFlag painted.1).get 0xF = if painted.1 then 1 else 0 := by
    rw [Registers.setFlag, Registers.get_set, Reg.flag, if_pos rfl]
  refine ⟨rfl, ?_⟩
  change ((machine.registers.setFlag painted.1).get 0xF = 1 ↔ _) ∧
    ((machine.registers.setFlag painted.1).get 0xF = 1 ∨ _)
  rw [flag]
  cases painted.1 <;> decide

/-- Painting a sprite is exclusive or on a screen that wraps at both edges, with
an exact report of collisions.  A drawing step paints the sprite at the index
register once, and the flag tells whether it met a lit pixel. -/
theorem drawing_is_toroidal_xor :
    (∀ (screen : Screen) (x y : UInt8) (sprite : List UInt8),
      (∀ column, column < 64 → ∀ row, row < 32 →
        (screen.paint x y sprite).2.pixel column row =
          (screen.pixel column row ^^
            decide (Screen.hits x.toNat y.toNat sprite column row % 2 = 1))) ∧
      ((screen.paint x y sprite).1 = true ↔
        ∃ earlier cell later, spriteCells x.toNat y.toNat sprite = earlier ++ cell :: later ∧
          (Screen.switchAll screen.lit earlier).2.get cell = true) ∧
      ((screen.paint x y sprite).1 = true ↔
        ∃ column, column < 64 ∧ ∃ row, row < 32 ∧
          ((screen.pixel column row = true ∧
              1 ≤ Screen.hits x.toNat y.toNat sprite column row) ∨
            (screen.pixel column row = false ∧
              2 ≤ Screen.hits x.toNat y.toNat sprite column row)))) ∧
    (∀ (noise : Noise) (machine after : Machine), Reachable noise machine →
      (machine.memory.word machine.pc).identifier = 0xD →
      step noise machine = .ok () after →
      let op := machine.memory.word machine.pc
      let covers := Screen.Covers (machine.registers.get op.x).toNat
        (machine.registers.get op.y).toNat (machine.sprite op.n)
      (∀ column, column < 64 → ∀ row, row < 32 →
        (after.screen.pixel column row = true ↔
          Xor (machine.screen.pixel column row = true) (covers column row))) ∧
      (after.registers.get 0xF = 1 ↔
        ∃ column, column < 64 ∧ ∃ row, row < 32 ∧
          machine.screen.pixel column row = true ∧ covers column row) ∧
      (after.registers.get 0xF = 1 ∨ after.registers.get 0xF = 0)) := by
  constructor
  · intro screen x y sprite
    exact ⟨fun column inColumns row inRows => Screen.pixel_paint screen x y sprite inColumns inRows,
      Screen.paint_collides_iff_exists_lit screen x y sprite,
      Screen.paint_collides_iff screen x y sprite⟩
  · intro noise machine after reachable draws stepped op covers
    rcases screen_and_flag_of_draw (reachable_sound reachable) draws stepped with
      ⟨drawn, flagged, flag⟩
    have short : (machine.sprite op.n).length ≤ 32 := by
      have bound := op.n.isLt
      simp only [sprite, List.length_map, List.length_range]
      omega
    rw [drawn]
    exact ⟨fun column inColumns row inRows =>
      Screen.pixel_paint_of_short machine.screen _ _ short inColumns inRows,
      flagged.trans (Screen.paint_collides_iff_of_short machine.screen _ _ short), flag⟩

/-- The sprite of the digit zero, drawn on a new screen, lights the corner. -/
theorem first_glyph_lights_corner : ∃ machine after : Machine,
    Reachable (fun _ => 0) machine ∧ step (fun _ => 0) machine = .ok () after ∧
      machine.screen.pixel 0 0 = false ∧ after.screen.pixel 0 0 = true := by
  have fits : Rom.size ⟨#[0xD0, 0x05]⟩ ≤ Memory.romLimit := by decide
  rcases Memory.initial.exists_load fits with ⟨memory, copied⟩
  have word : memory.word programStart = 0xD005 :=
    @Memory.word_opcode _ _ copied 0 (by decide)
  have corner : memory.ringByte 0 = 0xF0 := by
    rw [Memory.ringByte_load copied (by decide), if_neg (by decide),
      Memory.ringByte_initial (by decide)]
    rfl
  have reachable := reachable_of_load (fun _ => 0) copied
  have draws : (memory.word programStart).identifier = 0xD := by
    rw [word]
    rfl
  have room : programStart.toNat + 2 ≤ 0xFFE := by decide
  rcases exists_step_of_draw (reachable_sound reachable) (fun _ => 0) draws room with
    ⟨after, stepped⟩
  have drawn := (drawing_is_toroidal_xor.2 _ _ _ reachable draws stepped).1
    0 (by decide) 0 (by decide)
  have dark : Screen.initial.pixel 0 0 = false := by decide
  refine ⟨_, after, reachable, stepped, dark, drawn.mpr (.inr ⟨?_, ?_⟩)⟩
  · change Screen.Covers (Registers.initial.get (memory.word programStart).x).toNat
      (Registers.initial.get (memory.word programStart).y).toNat
      (sprite { initial with memory } (memory.word programStart).n) 0 0
    rw [word]
    refine ⟨0, Nat.zero_lt_succ 4, 0, by decide, ?_, by decide, by decide⟩
    change (memory.ringByte 0).toNat.testBit 7 = true
    rw [corner]
    decide
  · exact fun lit => Bool.false_ne_true (dark.symm.trans lit)

end Machine
end Chip8
