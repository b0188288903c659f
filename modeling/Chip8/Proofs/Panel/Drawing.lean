import Chip8.Panel
import Chip8.Proofs.Canvas.Painting
import Chip8.Proofs.Hex.Reading

namespace Chip8

/-!
# Drawing the debug panel

The panel first clears its columns and then lights the cells of its text.  Both
are regions of the canvas, so what is drawn does not depend on what was there
before: the lit cells have the foreground colour and the rest of the columns the
background colour.

The positions of a cell are computed from sizes, and each product and sum on the
way has to be a size again; otherwise drawing is a fault.  All of them are sizes
when the grid fits the width of the canvas and its height in pixels times that
width is a size.  The grid may be taller than the canvas: positions behind its end
are left out.
-/

/-! ## Sizes that fit -/

namespace Size

theorem check_of_lt {number : Nat} (small : number < limit) : check number = .ok number :=
  if_pos small

theorem add_of_lt {a b : Nat} (small : a + b < limit) : add a b = .ok (a + b) :=
  check_of_lt small

theorem mul_of_lt {a b : Nat} (small : a * b < limit) : mul a b = .ok (a * b) :=
  check_of_lt small

theorem check_of_ge {number : Nat} (large : limit ≤ number) : check number = .error .overflow :=
  if_neg (Nat.not_lt.mpr large)

theorem add_of_ge {a b : Nat} (large : limit ≤ a + b) : add a b = .error .overflow :=
  check_of_ge large

theorem mul_of_ge {a b : Nat} (large : limit ≤ a * b) : mul a b = .error .overflow :=
  check_of_ge large

theorem div_of_ne_zero {a b : Nat} (nonzero : b ≠ 0) : div a b = .ok (a / b) :=
  if_neg nonzero

end Size

namespace Panel

variable {panel : Panel} {stride size : Nat} {cell : Nat × Nat} {text : List String}

/-! ## Cells -/

/-- The positions of the pixels of a cell, counted on behind the end of the canvas. -/
def Covers (panel : Panel) (stride : Nat) (cell : Nat × Nat) : Nat → Prop :=
  Canvas.InRectangle stride (panel.origin + cell.1 * panel.cell)
    (panel.origin + cell.1 * panel.cell + panel.cell) (cell.2 * panel.cell)
    (cell.2 * panel.cell + panel.cell)

/-- The positions that a text lights. -/
def CoversText (panel : Panel) (stride : Nat) (text : List String) (position : Nat) : Prop :=
  ∃ cell ∈ litCells text, panel.Covers stride cell position

/-- The positions of the panel's columns. -/
def InColumns (panel : Panel) (stride size : Nat) : Nat → Prop :=
  Canvas.InRectangle stride panel.origin stride 0 (size / stride)

/-- The character in a column of a row of a text is a digit whose sprite has a
pixel at some place. -/
def HasPixel (text : List String) (row column gx gy : Nat) : Prop :=
  row < 11 ∧ column < 12 ∧ gx < 4 ∧ gy < 5 ∧
    ∃ line c digit, text[row]? = some line ∧ line.toList[column]? = some c ∧
      Hex.digit? c = some digit ∧ spriteBit (glyphRow digit gy) gx = true

theorem mem_glyphCells_iff {digit x y : Nat} :
    cell ∈ glyphCells digit x y ↔ ∃ gx gy, gx < 4 ∧ gy < 5 ∧
      spriteBit (glyphRow digit gy) gx = true ∧ cell = (x + gx, y + gy) := by
  constructor
  · intro member
    rcases List.mem_flatMap.mp member with ⟨gy, inRows, member⟩
    rcases List.mem_map.mp member with ⟨gx, inColumns, rfl⟩
    rcases List.mem_filter.mp inColumns with ⟨inColumns, bit⟩
    exact ⟨gx, gy, List.mem_range.mp inColumns, List.mem_range.mp inRows, bit, rfl⟩
  · rintro ⟨gx, gy, left, top, bit, rfl⟩
    refine List.mem_flatMap.mpr ⟨gy, List.mem_range.mpr top, ?_⟩
    exact List.mem_map.mpr ⟨gx, List.mem_filter.mpr ⟨List.mem_range.mpr left, bit⟩, rfl⟩

/-- The lit cells are the pixels of the digits that the grid has room for. -/
theorem mem_litCells_iff :
    cell ∈ litCells text ↔ ∃ row column gx gy, HasPixel text row column gx gy ∧
      cell = (2 + 5 * column + gx, 2 + 6 * row + gy) := by
  simp only [litCells, List.mem_flatMap, Prod.exists, List.mem_zipIdx_iff_getElem?,
    List.getElem?_take, Option.ite_none_right_eq_some]
  constructor
  · rintro ⟨line, row, ⟨fits, listed⟩, c, column, ⟨within, found⟩, member⟩
    split at member
    · rename_i digit spelt
      rcases mem_glyphCells_iff.mp member with ⟨gx, gy, left, top, bit, rfl⟩
      refine ⟨row, column, gx, gy, ⟨fits, within, left, top, line, c, digit, listed, found, spelt,
        bit⟩, ?_⟩
      rw [Nat.mul_comm 5, Nat.mul_comm 6]
      rfl
    · cases member
  · rintro ⟨row, column, gx, gy,
      ⟨fits, within, left, top, line, c, digit, listed, found, spelt, bit⟩, rfl⟩
    refine ⟨line, row, ⟨fits, listed⟩, c, column, ⟨within, found⟩, ?_⟩
    rw [spelt, Nat.mul_comm 5, Nat.mul_comm 6]
    exact mem_glyphCells_iff.mpr ⟨gx, gy, left, top, bit, rfl⟩

/-- What does not fit the grid has been left out. -/
theorem litCells_inside (member : cell ∈ litCells text) :
    cell.1 < cellsWide ∧ cell.2 < cellsTall := by
  rcases mem_litCells_iff.mp member with ⟨row, column, gx, gy, ⟨fits, within, left, top, _⟩, rfl⟩
  constructor
  · change 2 + 5 * column + gx < 64
    omega
  · change 2 + 6 * row + gy < 70
    omega

/-- The sprite of every digit has a pixel in its first row. -/
theorem exists_bit_of_digit :
    ∀ digit : Fin 16, ∃ gx : Fin 4, spriteBit (glyphRow digit 0) gx = true := by
  decide

theorem lit_of_digit {text : List String} {row digit : Nat} {line : String} {c : Char}
    {rest : List Char} (listed : text[row]? = some line) (fits : row < rows)
    (begins : line.toList = c :: rest) (spelt : Hex.digit? c = some digit) (small : digit < 16) :
    ∃ column, (column, 2 + 6 * row) ∈ litCells text := by
  rcases exists_bit_of_digit ⟨digit, small⟩ with ⟨gx, bit⟩
  have first : line.toList[0]? = some c := by
    rw [begins]
    rfl
  exact ⟨2 + 5 * 0 + gx, mem_litCells_iff.mpr ⟨row, 0, gx, 0,
    ⟨fits, by decide, gx.isLt, by decide, line, c, digit, listed, first, spelt, bit⟩, rfl⟩⟩

/-- The sixth line of the text shows the timers, so it is never empty. -/
theorem exists_lit_on_timer_line (machine : Machine) :
    ∃ column, (column, margin + 5 * glyphPitchY) ∈ litCells (lines machine) := by
  rcases Hex.exists_padded_cons 2 machine.delay.count.toNat with ⟨digit, rest, padded, small⟩
  have begins : (spaced [Hex.upper 2 machine.delay.count.toNat,
      Hex.upper 2 machine.sound.count.toNat]).toList =
        Hex.spell 'A' digit :: (rest.map (Hex.spell 'A') ++ [' '] ++
          (Hex.upper 2 machine.sound.count.toNat).toList) := by
    simp [spaced, Hex.upper, padded]
  have listed : (lines machine)[5]? = some (spaced [Hex.upper 2 machine.delay.count.toNat,
      Hex.upper 2 machine.sound.count.toNat]) := rfl
  exact lit_of_digit listed (by decide) begins (Hex.digit?_spell ⟨digit, small⟩) small

/-! ## Sizes of a cell -/

/-- What is computed for a cell are sizes: where it ends, and the positions of its
pixels, apart from those behind the stride. -/
structure CellFits (panel : Panel) (stride : Nat) (cell : Nat × Nat) : Prop where
  right : panel.origin + cell.1 * panel.cell + panel.cell < Size.limit
  bottom : cell.2 * panel.cell + panel.cell < Size.limit
  positions : ∀ position, panel.Covers stride cell position → position < Size.limit

theorem CellFits.fillCell_eq {canvas : Canvas} (fits : CellFits panel canvas.stride cell) (colour : Colour) :
    panel.fillCell colour canvas cell =
      .ok (canvas.fillRectangle (panel.origin + cell.1 * panel.cell)
        (panel.origin + cell.1 * panel.cell + panel.cell) (cell.2 * panel.cell)
        (cell.2 * panel.cell + panel.cell) colour) := by
  rcases fits with ⟨right, bottom, positions⟩
  have across := Size.mul_of_lt (a := cell.1) (b := panel.cell) (by omega)
  have start := Size.add_of_lt (a := panel.origin) (b := cell.1 * panel.cell) (by omega)
  have down := Size.mul_of_lt (a := cell.2) (b := panel.cell) (by omega)
  have finish := Size.add_of_lt (a := cell.2 * panel.cell) (b := panel.cell) bottom
  have limit := Size.add_of_lt (a := panel.origin + cell.1 * panel.cell) (b := panel.cell) right
  simp only [fillCell, bind, Except.bind, pure, Except.pure, across, start, down, finish, limit]
  split
  · -- The last pixel of the last row is the one with the largest position.
    rename_i some_columns
    have last := positions _ ⟨cell.2 * panel.cell + panel.cell - 1,
      min (panel.origin + cell.1 * panel.cell + panel.cell) canvas.stride - 1, by omega, by omega,
      by omega, by omega, rfl⟩
    have row := Size.mul_of_lt (a := cell.2 * panel.cell + panel.cell - 1) (b := canvas.stride)
      (by omega)
    simp only [row, Size.add_of_lt last]
  · rfl

theorem fillCell_of_not_fits {canvas : Canvas} (misfits : ¬ CellFits panel canvas.stride cell)
    (colour : Colour) : panel.fillCell colour canvas cell = .error .overflow := by
  simp only [fillCell, bind, Except.bind, pure, Except.pure]
  rcases Nat.lt_or_ge (cell.1 * panel.cell) Size.limit with across | across
  case inr => simp only [Size.mul_of_ge across]
  rcases Nat.lt_or_ge (panel.origin + cell.1 * panel.cell) Size.limit with left | left
  case inr => simp only [Size.mul_of_lt across, Size.add_of_ge left]
  rcases Nat.lt_or_ge (cell.2 * panel.cell) Size.limit with top | top
  case inr => simp only [Size.mul_of_lt across, Size.add_of_lt left, Size.mul_of_ge top]
  rcases Nat.lt_or_ge (cell.2 * panel.cell + panel.cell) Size.limit with bottom | bottom
  case inr =>
    simp only [Size.mul_of_lt across, Size.add_of_lt left, Size.mul_of_lt top, Size.add_of_ge bottom]
  rcases Nat.lt_or_ge (panel.origin + cell.1 * panel.cell + panel.cell) Size.limit with right | right
  case inr =>
    simp only [Size.mul_of_lt across, Size.add_of_lt left, Size.mul_of_lt top, Size.add_of_lt bottom,
      Size.add_of_ge right]
  simp only [Size.mul_of_lt across, Size.add_of_lt left, Size.mul_of_lt top, Size.add_of_lt bottom,
    Size.add_of_lt right]
  -- Only a position is left to be too large, and then the largest is too large as well.
  have large : ¬ ∀ position, panel.Covers canvas.stride cell position → position < Size.limit :=
    fun positions => misfits ⟨right, bottom, positions⟩
  rcases Classical.not_forall.mp large with ⟨position, large⟩
  rcases Classical.not_imp.mp large with ⟨⟨row, column, _, above, leftmost, rightmost, rfl⟩, large⟩
  have rows : row * canvas.stride ≤ (cell.2 * panel.cell + panel.cell - 1) * canvas.stride :=
    Nat.mul_le_mul_right _ (by omega)
  rw [if_pos (by omega)]
  rcases Nat.lt_or_ge ((cell.2 * panel.cell + panel.cell - 1) * canvas.stride) Size.limit
    with last | last
  case inr => simp only [Size.mul_of_ge last]
  simp only [Size.mul_of_lt last]
  rw [Size.add_of_ge (by omega)]

theorem CellFits.draws (fits : CellFits panel stride cell) (colour : Colour) :
    Canvas.Draws stride size (fun canvas => panel.fillCell colour canvas cell)
      (panel.Covers stride cell) fun _ => colour := by
  rintro canvas rfl rfl
  exact ⟨_, fits.fillCell_eq colour, canvas.fillRectangle_paints _ _ _ _ colour⟩

/-- The grid fits the width of the canvas, and its positions are sizes. -/
structure Fits (panel : Panel) (stride : Nat) : Prop where
  positive : 0 < panel.cell
  wide : panel.origin + cellsWide * panel.cell ≤ stride
  stride_lt : stride < Size.limit
  tall : cellsTall * panel.cell * stride ≤ Size.limit

/-- The sizes that a cell of the grid needs. -/
theorem Fits.cell_sizes (fits : Fits panel stride) (inside : cell.1 < cellsWide ∧ cell.2 < cellsTall) :
    panel.origin + cell.1 * panel.cell + panel.cell ≤ stride ∧
      cell.2 * panel.cell + panel.cell < Size.limit ∧
      (cell.2 * panel.cell + panel.cell - 1) * stride + stride ≤ Size.limit := by
  have right : (cell.1 + 1) * panel.cell ≤ cellsWide * panel.cell :=
    Nat.mul_le_mul_right _ inside.1
  have below : (cell.2 + 1) * panel.cell ≤ cellsTall * panel.cell :=
    Nat.mul_le_mul_right _ inside.2
  have product := Nat.mul_le_mul_right stride below
  have positive := fits.positive
  have wide := fits.wide
  have tall := fits.tall
  have last : (cell.2 * panel.cell + panel.cell - 1) * stride + stride =
      (cell.2 * panel.cell + panel.cell) * stride := by
    rw [← Nat.succ_mul]
    congr 1
    omega
  rw [Nat.succ_mul] at right below product
  have grid : cellsWide * panel.cell = 64 * panel.cell := rfl
  have height : cellsTall * panel.cell < 2 * stride := by
    have rows : cellsTall * panel.cell = 70 * panel.cell := rfl
    omega
  have short := fits.stride_lt
  refine ⟨by omega, ?_, by omega⟩
  -- A column of pixels is no longer than the buffer, as every row has a pixel.
  have columns : cellsTall * panel.cell * 2 ≤ cellsTall * panel.cell * stride := by
    refine Nat.mul_le_mul_left _ ?_
    omega
  have some := Nat.mul_pos (show 0 < cellsTall by decide) positive
  omega

theorem Fits.cellFits (fits : Fits panel stride)
    (inside : cell.1 < cellsWide ∧ cell.2 < cellsTall) : CellFits panel stride cell := by
  rcases fits.cell_sizes inside with ⟨right, bottom, last⟩
  refine ⟨Nat.lt_of_le_of_lt right fits.stride_lt, bottom, ?_⟩
  rintro position ⟨row, column, _, above, _, within, rfl⟩
  have rows : row * stride ≤ (cell.2 * panel.cell + panel.cell - 1) * stride :=
    Nat.mul_le_mul_right _ (by omega)
  omega

/-! ## The whole panel -/

/-- The second canvas is the first with a panel drawn that shows a text. -/
structure Draws (panel : Panel) (text : List String) (foreground background : Colour)
    (before after : Canvas) : Prop where
  stride_eq : after.stride = before.stride
  size_eq : after.pixels.size = before.pixels.size
  lit : ∀ position, panel.CoversText before.stride text position →
    position < before.pixels.size → after.pixels[position]? = some foreground
  dark : ∀ position, ¬ panel.CoversText before.stride text position →
    panel.InColumns before.stride before.pixels.size position → position < before.pixels.size →
    after.pixels[position]? = some background
  other : ∀ position, ¬ panel.CoversText before.stride text position →
    ¬ panel.InColumns before.stride before.pixels.size position →
    after.pixels[position]? = before.pixels[position]?

theorem litCells_draws (fits : ∀ cell ∈ litCells text, CellFits panel stride cell)
    (colour : Colour) :
    Canvas.Draws stride size
      (fun canvas => (litCells text).foldlM (panel.fillCell colour) canvas)
      (panel.CoversText stride text) fun _ => colour :=
  .foldlM (panel.Covers stride) fun cell member => (fits cell member).draws colour

theorem Fits.stride_ne_zero (fits : Fits panel stride) : stride ≠ 0 := by
  have grid : cellsWide * panel.cell = 64 * panel.cell := rfl
  have fit := fits.wide
  have positive := fits.positive
  omega

/-- The height of the canvas can be computed when it has columns. -/
theorem draw_eq {canvas : Canvas} (wide : canvas.stride ≠ 0) (machine : Machine)
    (foreground background : Colour) :
    panel.draw machine canvas foreground background =
      (litCells (lines machine)).foldlM (panel.fillCell foreground)
        (canvas.fillRectangle panel.origin canvas.stride 0
          (canvas.pixels.size / canvas.stride) background) := by
  simp only [draw, Size.div_of_ne_zero wide, bind, Except.bind]

/-- A panel is drawn without a fault if the sizes of all lit cells fit. -/
theorem exists_draw_of_cellFits {canvas : Canvas} (wide : canvas.stride ≠ 0) {machine : Machine}
    (fits : ∀ cell ∈ litCells (lines machine), CellFits panel canvas.stride cell)
    (foreground background : Colour) :
    ∃ drawn, panel.draw machine canvas foreground background = .ok drawn ∧
      Draws panel (lines machine) foreground background canvas drawn := by
  have cleared := canvas.fillRectangle_paints panel.origin canvas.stride 0
    (canvas.pixels.size / canvas.stride) background
  rcases litCells_draws fits foreground _ cleared.stride_eq cleared.size_eq with
    ⟨drawn, succeeded, painted⟩
  refine ⟨drawn, ?_, ?_⟩
  · rw [draw_eq wide]
    exact succeeded
  · exact {
      stride_eq := painted.stride_eq.trans cleared.stride_eq
      size_eq := painted.size_eq.trans cleared.size_eq
      lit := fun position covers bound => painted.inside position covers (cleared.size_eq.symm ▸ bound)
      dark := fun position missing inside bound =>
        (painted.outside position missing).trans (cleared.inside position inside bound)
      other := fun position missing outside =>
        (painted.outside position missing).trans (cleared.outside position outside) }

/-- A panel whose grid fits is drawn without a fault. -/
theorem Fits.exists_draw {canvas : Canvas} (fits : Fits panel canvas.stride) (machine : Machine)
    (foreground background : Colour) :
    ∃ drawn, panel.draw machine canvas foreground background = .ok drawn ∧
      Draws panel (lines machine) foreground background canvas drawn :=
  exists_draw_of_cellFits fits.stride_ne_zero
    (fun _ member => fits.cellFits (litCells_inside member)) foreground background

end Panel
end Chip8
