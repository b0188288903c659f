import Chip8.Proofs.Screen.Painting
import Mathlib.Data.List.GetD

namespace Chip8
namespace Screen

/-!
# Paintings in any order

Painting a sprite switches the cells under its set bits, so making several
paintings switches the cells of all their sprites.  The order of the paintings
changes the order in which cells are switched but not how often each of them is,
and only the parity of that number can be seen in the end.  Paintings can
therefore be made in any order, and making each of them twice makes none.

The collisions that are reported do depend on the order.  What can be said of
them is said for one sprite that is painted twice in a row: a sprite that is not
higher than the screen hits no pixel twice, so a pixel that it hits is lit
before one of the two paintings.
-/

/-- A sprite and the place where it is painted. -/
structure Painting where
  x : UInt8
  y : UInt8
  sprite : List UInt8

/-- The cells that a painting switches. -/
def Painting.cells (painting : Painting) : List Cell :=
  spriteCells painting.x.toNat painting.y.toNat painting.sprite

/-- The screen after paintings that are made in order. -/
def paintAll (screen : Screen) (paintings : List Painting) : Screen :=
  paintings.foldl
    (fun screen painting => (screen.paint painting.x painting.y painting.sprite).2) screen

variable {screen : Screen}

/-! ## Paintings as switches -/

/-- By induction on the paintings. -/
theorem lit_paintAll (screen : Screen) (paintings : List Painting) :
    (screen.paintAll paintings).lit =
      (switchAll screen.lit (paintings.flatMap Painting.cells)).2 := by
  induction paintings generalizing screen with
  | nil => rfl
  | cons first rest ih =>
      rw [List.flatMap_cons, switchAll, List.foldl_append, ← Prod.mk.eta (p := first.cells.foldl _ _),
        foldl_switch_snd_congr _ _ false]
      exact ih _

/-- Paintings leave the same pixels when each cell is switched equally often, up
to parity. -/
theorem lit_paintAll_eq (cells : List Cell) {paintings : List Painting}
    (alike : ∀ cell, (paintings.flatMap Painting.cells).count cell % 2 = cells.count cell % 2) :
    (screen.paintAll paintings).lit = (switchAll screen.lit cells).2 := by
  apply Vector.ext
  intro position inside
  have switched (cells : List Cell) := foldl_switch_snd cells false screen.lit ⟨position, inside⟩
  rw [lit_paintAll]
  refine (switched _).trans ((switched _).trans ?_).symm
  rw [alike]

theorem lit_paintAll_of_perm {paintings reordered : List Painting}
    (perm : reordered.Perm paintings) :
    (screen.paintAll reordered).lit = (screen.paintAll paintings).lit := by
  rw [lit_paintAll screen paintings]
  apply lit_paintAll_eq
  intro cell
  rw [(perm.flatMap_right Painting.cells).count_eq]

/-- Paintings that are made twice switch each cell an even number of times. -/
theorem lit_paintAll_of_twice {paintings twice : List Painting}
    (perm : twice.Perm (paintings ++ paintings)) : (screen.paintAll twice).lit = screen.lit := by
  rw [lit_paintAll_of_perm perm]
  apply lit_paintAll_eq []
  intro cell
  rw [List.flatMap_append, List.count_append, List.count_nil]
  omega

/-! ## One sprite painted twice -/

/-- Some row of the sprite has a bit set. -/
def HasBit (sprite : List UInt8) : Prop :=
  ∃ row ∈ sprite, row ≠ 0

theorem exists_bit_of_ne_zero {row : UInt8} (nonzero : row ≠ 0) :
    ∃ j < 8, row.toNat.testBit (7 - j) = true := by
  have number : row.toNat ≠ 0 := fun zero => nonzero (UInt8.toNat_inj.mp zero)
  rcases Nat.exists_testBit_of_ne_zero number with ⟨k, set⟩
  have low : k < 8 := by
    by_contra high
    have small : row.toNat < 2 ^ k :=
      row.toNat_lt.trans_le (Nat.pow_le_pow_right Nat.two_pos (Nat.le_of_not_lt high))
    rw [Nat.testBit_lt_two_pow small] at set
    cases set
  exact ⟨7 - k, by omega, by rwa [show 7 - (7 - k) = k by omega]⟩

/-- A sprite has a bit set exactly when it covers some pixel, wherever it is painted. -/
theorem exists_covers_iff (x y : Nat) (sprite : List UInt8) :
    (∃ column, column < 64 ∧ ∃ row, row < 32 ∧ Covers x y sprite column row) ↔ HasBit sprite := by
  constructor
  · rintro ⟨column, -, row, -, i, inside, j, -, set, -⟩
    refine ⟨sprite[i], List.getElem_mem inside, ?_⟩
    intro blank
    rw [List.getD_eq_getElem _ _ inside, blank] at set
    simp at set
  · rintro ⟨line, member, nonzero⟩
    rcases List.mem_iff_getElem.mp member with ⟨i, inside, rfl⟩
    rcases exists_bit_of_ne_zero nonzero with ⟨j, inColumns, set⟩
    refine ⟨(x + j) % 64, Nat.mod_lt _ (by decide), (y + i) % 32, Nat.mod_lt _ (by decide),
      i, inside, j, inColumns, ?_, rfl, rfl⟩
    rwa [List.getD_eq_getElem _ _ inside]

section Twice

variable {x y : UInt8} {sprite : List UInt8} (short : sprite.length ≤ 32)

include short

/-- Where the sprite covers a pixel, the first painting has lit what was dark. -/
theorem second_paint_collides_iff (screen : Screen) (x y : UInt8) :
    ((screen.paint x y sprite).2.paint x y sprite).1 = true ↔
      ∃ column, column < 64 ∧ ∃ row, row < 32 ∧
        screen.pixel column row = false ∧ Covers x.toNat y.toNat sprite column row := by
  have lit {column row : Nat} (inColumns : column < 64) (inRows : row < 32)
      (covered : Covers x.toNat y.toNat sprite column row) :
      (screen.paint x y sprite).2.pixel column row = true ↔
        screen.pixel column row = false := by
    rw [pixel_paint_of_short screen x y short inColumns inRows, Xor, ← Bool.not_eq_true]
    simp only [covered, not_true, and_false, true_and, false_or]
  rw [paint_collides_iff_of_short _ x y short]
  constructor
  · rintro ⟨column, inColumns, row, inRows, painted, covered⟩
    exact ⟨column, inColumns, row, inRows, (lit inColumns inRows covered).mp painted, covered⟩
  · rintro ⟨column, inColumns, row, inRows, dark, covered⟩
    exact ⟨column, inColumns, row, inRows, (lit inColumns inRows covered).mpr dark, covered⟩

/-- A pixel that the sprite covers is lit before the first painting or before
the second. -/
theorem one_of_two_collides_iff (screen : Screen) (x y : UInt8) :
    ((screen.paint x y sprite).1 = true ∨
        ((screen.paint x y sprite).2.paint x y sprite).1 = true) ↔ HasBit sprite := by
  rw [← exists_covers_iff x.toNat y.toNat, paint_collides_iff_of_short screen x y short,
    second_paint_collides_iff short]
  constructor
  · rintro (⟨column, inColumns, row, inRows, -, covered⟩ |
      ⟨column, inColumns, row, inRows, -, covered⟩)
    all_goals exact ⟨column, inColumns, row, inRows, covered⟩
  · rintro ⟨column, inColumns, row, inRows, covered⟩
    cases before : screen.pixel column row with
    | true => exact Or.inl ⟨column, inColumns, row, inRows, before, covered⟩
    | false => exact Or.inr ⟨column, inColumns, row, inRows, before, covered⟩

theorem paint_of_dark {screen : Screen} {x y : UInt8}
    (dark : ∀ column, column < 64 → ∀ row, row < 32 →
      Covers x.toNat y.toNat sprite column row → screen.pixel column row = false) :
    (screen.paint x y sprite).1 = false := by
  rw [← Bool.not_eq_true, paint_collides_iff_of_short screen x y short]
  rintro ⟨column, inColumns, row, inRows, lit, covered⟩
  exact Bool.false_ne_true ((dark column inColumns row inRows covered).symm.trans lit)

end Twice

/-- **Paintings commute and cancel.** Reordering a list of paintings leads to the
same pixels, and making every painting of a list twice, mixed in any way, restores
the pixels.  When a sprite of at most thirty-two rows is painted twice in a row,
one of the two paintings collides exactly if the sprite has a bit set; where the
sprite lands on dark pixels only, it is the second. -/
theorem paintings_commute_and_cancel :
    (∀ (screen : Screen) (paintings reordered : List Painting), reordered.Perm paintings →
      (screen.paintAll reordered).lit = (screen.paintAll paintings).lit) ∧
    (∀ (screen : Screen) (paintings twice : List Painting),
      twice.Perm (paintings ++ paintings) → (screen.paintAll twice).lit = screen.lit) ∧
    ∀ (screen : Screen) (x y : UInt8) (sprite : List UInt8), sprite.length ≤ 32 →
      let first := screen.paint x y sprite
      let second := first.2.paint x y sprite
      ((first.1 = true ∨ second.1 = true) ↔ HasBit sprite) ∧
      ((∀ column, column < 64 → ∀ row, row < 32 →
          Covers x.toNat y.toNat sprite column row → screen.pixel column row = false) →
        first.1 = false ∧ (second.1 = true ↔ HasBit sprite)) := by
  refine ⟨fun _ _ _ => lit_paintAll_of_perm, fun _ _ _ => lit_paintAll_of_twice, ?_⟩
  intro screen x y sprite short first second
  have either := one_of_two_collides_iff short screen x y
  refine ⟨either, fun dark => ?_⟩
  have silent := paint_of_dark short dark
  refine ⟨silent, Iff.trans ⟨Or.inr, fun one => one.resolve_left ?_⟩ either⟩
  rw [silent]
  exact Bool.false_ne_true

/-- Two sprites that overlap across the corner of the screen, painted twice and in
a different order. -/
theorem corner_is_restored :
    let cross : Painting := ⟨61, 30, [0x20, 0xF8, 0x20]⟩
    let bar : Painting := ⟨63, 31, [0xFF]⟩
    [bar, cross].Perm [cross, bar] ∧
      (Screen.initial.paintAll [bar, cross]).lit = (Screen.initial.paintAll [cross, bar]).lit ∧
      (Screen.initial.paintAll [bar, cross, bar, cross]).lit = Screen.initial.lit ∧
      ((Screen.initial.paint 61 30 [0x20, 0xF8, 0x20]).2.paint 61 30 [0x20, 0xF8, 0x20]).1 = true := by
  intro cross bar
  have swapped : [bar, cross].Perm [cross, bar] := .swap _ _ _
  have mixed : [bar, cross, bar, cross].Perm ([cross, bar] ++ [cross, bar]) :=
    swapped.append swapped
  refine ⟨swapped, paintings_commute_and_cancel.1 _ _ _ swapped,
    paintings_commute_and_cancel.2.1 _ _ _ mixed, ?_⟩
  have again := paintings_commute_and_cancel.2.2 Screen.initial 61 30 [0x20, 0xF8, 0x20] (by decide)
  refine (again.2 ?_).2.mpr ⟨0x20, by decide, by decide⟩
  intro column _ row _ _
  simp [Screen.initial, pixel]

end Screen
end Chip8
