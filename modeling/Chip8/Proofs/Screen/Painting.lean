import Chip8.Screen
import Mathlib.Algebra.BigOperators.Group.Finset.Sigma
import Mathlib.Algebra.BigOperators.Intervals
import Mathlib.Data.Nat.Count

namespace Chip8

/-!
# Painting as counting

Painting switches cells one after the other in a flat array and notes on the
way whether a cell was lit.  The result depends only on how often each cell is
switched: a pixel changes when a set bit of the sprite falls on it an odd
number of times, and a collision is noted when a lit pixel is hit at all or a
dark one is hit twice.

The hits of a pixel are counted by rows and columns of the sprite, with both
coordinates wrapped, for sprites of any height.  A sprite with more than
thirty-two rows overlaps itself, so a pixel can be hit several times.
-/

namespace Screen

/-- Bit `j` of row `i` of a sprite with its corner at `x` and `y` is set and
falls on the pixel in a column and a row. -/
def Falls (x y : Nat) (sprite : List UInt8) (column row : Nat) (place : Nat × Nat) : Prop :=
  (sprite.getD place.1 0).toNat.testBit (7 - place.2) = true ∧
    (y + place.1) % 32 = row ∧ (x + place.2) % 64 = column

instance (x y : Nat) (sprite : List UInt8) (column row : Nat) :
    DecidablePred (Falls x y sprite column row) :=
  fun _ => inferInstanceAs (Decidable (_ ∧ _))

/-- How many set bits of a sprite fall on a pixel. -/
def hits (x y : Nat) (sprite : List UInt8) (column row : Nat) : Nat :=
  ((Finset.range sprite.length ×ˢ Finset.range 8).filter (Falls x y sprite column row)).card

/-! ## Switching cells in order -/

theorem switch_eq (collided : Bool) (lit : Vector Bool 2048) (first cell : Cell) :
    (switch (collided, lit) first).2.get cell =
      if first = cell then !lit.get cell else lit.get cell := by
  change (lit.set first (!lit[first]))[cell] = if first = cell then !lit[cell] else lit[cell]
  by_cases same : first = cell
  · subst same
    simp
  · have different : first.val ≠ cell.val := fun equal => same (Fin.ext equal)
    simp [same, different]

/-- Every switch of a cell counts, so only the parity of their number matters. -/
theorem foldl_switch_snd (cells : List Cell) (collided : Bool) (lit : Vector Bool 2048)
    (cell : Cell) :
    (cells.foldl switch (collided, lit)).2.get cell =
      (lit.get cell ^^ decide (cells.count cell % 2 = 1)) := by
  induction cells generalizing collided lit with
  | nil => simp
  | cons first rest ih =>
      have switched := switch_eq collided lit first cell
      rw [List.foldl_cons, ← Prod.mk.eta (p := switch (collided, lit) first), ih, switched,
        List.count_cons]
      by_cases same : first = cell
      · subst same
        rcases Nat.mod_two_eq_zero_or_one (rest.count first) with even | odd
        · simp [even, Nat.add_mod]
        · simp [odd, Nat.add_mod]
      · simp [same]

/-- Switched in order, a cell goes off on the way when it is lit and switched at
all, or dark and switched twice. -/
def GoesOff (lit : Vector Bool 2048) (cells : List Cell) (cell : Cell) : Prop :=
  (lit.get cell = true ∧ 1 ≤ cells.count cell) ∨ (lit.get cell = false ∧ 2 ≤ cells.count cell)

theorem goesOff_cons (collided : Bool) (lit : Vector Bool 2048) (first : Cell)
    (rest : List Cell) (cell : Cell) :
    GoesOff lit (first :: rest) cell ↔
      (first = cell ∧ lit.get first = true) ∨
        GoesOff (switch (collided, lit) first).2 rest cell := by
  unfold GoesOff
  rw [switch_eq, List.count_cons]
  by_cases same : first = cell
  · subst same
    cases lit.get first <;> simp
  · simp [same]

/-- A collision is noted exactly when some cell goes off on the way. -/
theorem foldl_switch_fst (cells : List Cell) (collided : Bool) (lit : Vector Bool 2048) :
    (cells.foldl switch (collided, lit)).1 = true ↔
      collided = true ∨ ∃ cell, GoesOff lit cells cell := by
  induction cells generalizing collided lit with
  | nil => simp [GoesOff]
  | cons first rest ih =>
      have noted : (switch (collided, lit) first).1 = true ↔
          collided = true ∨ lit.get first = true := Bool.or_eq_true_iff
      have split : (∃ cell, GoesOff lit (first :: rest) cell) ↔
          lit.get first = true ∨ ∃ cell, GoesOff (switch (collided, lit) first).2 rest cell := by
        simp only [goesOff_cons collided, exists_or, exists_eq_left']
      rw [List.foldl_cons, ← Prod.mk.eta (p := switch (collided, lit) first), ih, noted, split,
        or_assoc]

/-- What is noted does not change what is switched. -/
theorem foldl_switch_snd_congr (cells : List Cell) (collided other : Bool)
    (lit : Vector Bool 2048) :
    (cells.foldl switch (collided, lit)).2 = (cells.foldl switch (other, lit)).2 := by
  induction cells generalizing collided other lit with
  | nil => rfl
  | cons first rest ih => exact ih _ _ _

/-- A collision is noted exactly when some cell is lit at the moment it is switched. -/
theorem foldl_switch_fst_iff_exists_lit (cells : List Cell) (collided : Bool)
    (lit : Vector Bool 2048) :
    (cells.foldl switch (collided, lit)).1 = true ↔
      collided = true ∨ ∃ earlier cell later,
        cells = earlier ++ cell :: later ∧ (switchAll lit earlier).2.get cell = true := by
  induction cells generalizing collided lit with
  | nil => simp
  | cons first rest ih =>
      have noted : (switch (collided, lit) first).1 = true ↔
          collided = true ∨ lit.get first = true := Bool.or_eq_true_iff
      rw [List.foldl_cons, ← Prod.mk.eta (p := switch (collided, lit) first), ih, noted, or_assoc]
      apply or_congr_right
      constructor
      · rintro (now | ⟨earlier, cell, later, rfl, after⟩)
        · exact ⟨[], first, rest, rfl, now⟩
        · refine ⟨first :: earlier, cell, later, rfl, ?_⟩
          rw [← after]
          exact congrArg (·.get cell) (foldl_switch_snd_congr earlier _ _ _)
      · rintro ⟨earlier, cell, later, equal, at_time⟩
        rcases List.cons_eq_append_iff.mp equal with ⟨rfl, others⟩ | ⟨before, rfl, rfl⟩
        · cases others
          exact Or.inl at_time
        · refine Or.inr ⟨before, cell, later, rfl, ?_⟩
          rw [← at_time]
          exact congrArg (·.get cell) (foldl_switch_snd_congr before _ _ _)

/-! ## Counting hits -/

theorem wrapped_eq_wrapped_iff (x y : Nat) {column row : Nat} (inColumns : column < 64)
    (inRows : row < 32) :
    Cell.wrapped x y = Cell.wrapped column row ↔ y % 32 = row ∧ x % 64 = column := by
  simp only [Cell.wrapped, Fin.mk.injEq]
  omega

theorem hits_eq_sum (x y : Nat) (sprite : List UInt8) (column row : Nat) :
    hits x y sprite column row =
      ∑ i ∈ Finset.range sprite.length,
        Nat.count (fun j => Falls x y sprite column row (i, j)) 8 := by
  simp only [hits, Finset.card_filter, Finset.sum_product, Nat.count_eq_card_filter_range]

theorem hits_cons (x y : Nat) (first : UInt8) (rest : List UInt8) (column row : Nat) :
    hits x y (first :: rest) column row =
      Nat.count (fun j => Falls x y [first] column row (0, j)) 8 +
        hits x (y + 1) rest column row := by
  have below (i j : Nat) : Falls x y (first :: rest) column row (i + 1, j) ↔
      Falls x (y + 1) rest column row (i, j) := by
    simp only [Falls, List.getD_cons_succ, Nat.add_right_comm y 1 i, Nat.add_assoc]
  rw [hits_eq_sum, List.length_cons, Finset.sum_range_succ', Nat.add_comm, hits_eq_sum]
  simp only [below]
  rfl

/-- The cells of a sprite, as they are switched, contain a pixel once for each hit. -/
theorem count_spriteCells (x y : Nat) (sprite : List UInt8) {column row : Nat}
    (inColumns : column < 64) (inRows : row < 32) :
    (spriteCells x y sprite).count (Cell.wrapped column row) = hits x y sprite column row := by
  induction sprite generalizing y with
  | nil => rfl
  | cons first rest ih =>
      have inFirst : (((List.range 8).filter (spriteBit first)).map
            fun j => Cell.wrapped (x + j) y).count (Cell.wrapped column row) =
          Nat.count (fun j => Falls x y [first] column row (0, j)) 8 := by
        rw [List.count, List.countP_map, List.countP_filter, Nat.count]
        congr 1
        funext j
        apply Bool.eq_iff_iff.mpr
        simp [Falls, spriteBit, wrapped_eq_wrapped_iff _ _ inColumns inRows, and_comm]
      rw [spriteCells, List.count_append, ih, inFirst, hits_cons]

/-! ## Painting -/

theorem wrapped_surjective (cell : Cell) :
    ∃ column, column < 64 ∧ ∃ row, row < 32 ∧ Cell.wrapped column row = cell := by
  have bound := cell.isLt
  refine ⟨cell.val % 64, by omega, cell.val / 64, by omega, ?_⟩
  apply Fin.ext
  simp only [Cell.wrapped]
  omega

/-- A painted pixel is the old one, switched once for each hit. -/
theorem pixel_paint (screen : Screen) (x y : UInt8) (sprite : List UInt8) {column row : Nat}
    (inColumns : column < 64) (inRows : row < 32) :
    (screen.paint x y sprite).2.pixel column row =
      (screen.pixel column row ^^
        decide (hits x.toNat y.toNat sprite column row % 2 = 1)) := by
  rw [← count_spriteCells _ _ _ inColumns inRows]
  exact foldl_switch_snd _ _ _ _

/-- A painting collides when a lit pixel is hit or a dark one is hit twice. -/
theorem paint_collides_iff (screen : Screen) (x y : UInt8) (sprite : List UInt8) :
    (screen.paint x y sprite).1 = true ↔
      ∃ column, column < 64 ∧ ∃ row, row < 32 ∧
        ((screen.pixel column row = true ∧ 1 ≤ hits x.toNat y.toNat sprite column row) ∨
          (screen.pixel column row = false ∧ 2 ≤ hits x.toNat y.toNat sprite column row)) := by
  have noted : (screen.paint x y sprite).1 = true ↔
      ∃ cell, GoesOff screen.lit (spriteCells x.toNat y.toNat sprite) cell :=
    (foldl_switch_fst _ _ _).trans (by simp)
  rw [noted]
  constructor
  · rintro ⟨cell, off⟩
    rcases wrapped_surjective cell with ⟨column, inColumns, row, inRows, rfl⟩
    refine ⟨column, inColumns, row, inRows, ?_⟩
    rwa [GoesOff, count_spriteCells _ _ _ inColumns inRows] at off
  · rintro ⟨column, inColumns, row, inRows, off⟩
    refine ⟨Cell.wrapped column row, ?_⟩
    rwa [GoesOff, count_spriteCells _ _ _ inColumns inRows]

/-- A painting collides when some cell is lit at the moment it is switched. -/
theorem paint_collides_iff_exists_lit (screen : Screen) (x y : UInt8) (sprite : List UInt8) :
    (screen.paint x y sprite).1 = true ↔
      ∃ earlier cell later, spriteCells x.toNat y.toNat sprite = earlier ++ cell :: later ∧
        (switchAll screen.lit earlier).2.get cell = true :=
  (foldl_switch_fst_iff_exists_lit _ _ _).trans (by simp)

/-! ## Sprites that do not overlap themselves -/

/-- Some set bit of a sprite falls on a pixel. -/
def Covers (x y : Nat) (sprite : List UInt8) (column row : Nat) : Prop :=
  ∃ i, i < sprite.length ∧ ∃ j, j < 8 ∧ Falls x y sprite column row (i, j)

theorem one_le_hits_iff (x y : Nat) (sprite : List UInt8) (column row : Nat) :
    1 ≤ hits x y sprite column row ↔ Covers x y sprite column row := by
  rw [Nat.one_le_iff_ne_zero, hits, Finset.card_ne_zero]
  constructor
  · rintro ⟨⟨i, j⟩, member⟩
    rcases Finset.mem_filter.mp member with ⟨inside, falls⟩
    rcases Finset.mem_product.mp inside with ⟨inRows, inColumns⟩
    exact ⟨i, Finset.mem_range.mp inRows, j, Finset.mem_range.mp inColumns, falls⟩
  · rintro ⟨i, inRows, j, inColumns, falls⟩
    exact ⟨(i, j), Finset.mem_filter.mpr ⟨Finset.mem_product.mpr
      ⟨Finset.mem_range.mpr inRows, Finset.mem_range.mpr inColumns⟩, falls⟩⟩

/-- Up to the height of the screen, different places of a sprite fall on different pixels. -/
theorem hits_le_one {x y : Nat} {sprite : List UInt8} (short : sprite.length ≤ 32)
    (column row : Nat) : hits x y sprite column row ≤ 1 := by
  apply Finset.card_le_one.mpr
  rintro ⟨i, j⟩ first ⟨k, l⟩ second
  simp only [Finset.mem_filter, Finset.mem_product, Finset.mem_range, Falls] at first second
  rcases first with ⟨⟨inRows, inColumns⟩, -, sameRow, sameColumn⟩
  rcases second with ⟨⟨alsoInRows, alsoInColumns⟩, -, alsoSameRow, alsoSameColumn⟩
  have rows : i = k := by omega
  have columns : j = l := by omega
  rw [rows, columns]

theorem pixel_paint_of_short (screen : Screen) (x y : UInt8) {sprite : List UInt8}
    (short : sprite.length ≤ 32) {column row : Nat} (inColumns : column < 64) (inRows : row < 32) :
    (screen.paint x y sprite).2.pixel column row = true ↔
      Xor (screen.pixel column row = true) (Covers x.toNat y.toNat sprite column row) := by
  have most := hits_le_one (x := x.toNat) (y := y.toNat) short column row
  rw [pixel_paint screen x y sprite inColumns inRows, ← one_le_hits_iff]
  rcases Nat.le_one_iff_eq_zero_or_eq_one.mp most with missed | hit
  · simp [missed, Xor]
  · simp [hit, Xor]

theorem paint_collides_iff_of_short (screen : Screen) (x y : UInt8) {sprite : List UInt8}
    (short : sprite.length ≤ 32) :
    (screen.paint x y sprite).1 = true ↔
      ∃ column, column < 64 ∧ ∃ row, row < 32 ∧
        screen.pixel column row = true ∧ Covers x.toNat y.toNat sprite column row := by
  have once (column row : Nat) : ¬ 2 ≤ hits x.toNat y.toNat sprite column row :=
    Nat.not_le_of_lt (Nat.lt_succ_of_le (hits_le_one short column row))
  simp only [paint_collides_iff, once, and_false, or_false, one_le_hits_iff]

end Screen
end Chip8
