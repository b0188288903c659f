import Chip8.Proofs.Panel.Drawing

namespace Chip8

/-!
# The pixels of the debug panel

A character of the text that is a digit has a place in the grid, and each pixel of
its sprite is a cell there.  On the canvas the foreground shows where such a cell
lies, whatever the canvas was; cells are cut off at the right edge and at the end
of the buffer, so none of them reaches into the columns of the game.

Nothing is assumed of the canvas.  It may be narrower than the panel and shorter
than the text, it may end in an incomplete row, and the panel may begin behind its
last column.  The panel is drawn exactly if what is computed for its cells are
sizes.
-/

namespace Panel

variable {panel : Panel} {stride x y : Nat} {text : List String}

/-! ## Clearing -/

/-- Clears the panel's columns pixel by pixel.  Each of the positions has to exist. -/
def clearPixels (panel : Panel) (colour : Colour) (canvas : Canvas) : Except Fault Canvas :=
  (List.range (canvas.pixels.size / canvas.stride)).foldlM (fun cleared row =>
    (List.range' panel.origin (canvas.stride - panel.origin)).foldlM (fun cleared column =>
      cleared.fillRun (row * canvas.stride + column) 1 colour) cleared) canvas

/-- Clearing stays inside the buffer, as it keeps to complete rows. -/
theorem clearPixels_eq (panel : Panel) (colour : Colour) (canvas : Canvas) :
    panel.clearPixels colour canvas =
      .ok (canvas.fillRectangle panel.origin canvas.stride 0
        (canvas.pixels.size / canvas.stride) colour) := by
  have pixel (row column : Nat) (complete : row < canvas.pixels.size / canvas.stride)
      (listed : column ∈ List.range' panel.origin (canvas.stride - panel.origin)) :
      Canvas.Draws canvas.stride canvas.pixels.size
        (fun cleared => cleared.fillRun (row * canvas.stride + column) 1 colour)
        (Canvas.InRun (row * canvas.stride + column) 1) fun _ => colour := by
    rw [List.mem_range'_1] at listed
    exact Canvas.fillRun_draws (Canvas.position_lt_of_complete complete (by omega)) colour
  have rows := Canvas.Draws.foldlM _ fun row member =>
    Canvas.Draws.foldlM _ fun column listed => pixel row column (List.mem_range.mp member) listed
  rcases rows canvas rfl rfl with ⟨cleared, succeeded, paints⟩
  have columns := canvas.fillRectangle_paints panel.origin canvas.stride 0
    (canvas.pixels.size / canvas.stride) colour
  rw [← (paints.congr (fun position => ?_) fun _ _ => rfl).unique columns]
  · exact succeeded
  simp only [List.mem_range, List.mem_range'_1, Canvas.InRun, Canvas.InRectangle]
  constructor
  · rintro ⟨row, complete, column, listed, lower, upper⟩
    exact ⟨row, column, Nat.zero_le row, complete, listed.1, by omega, by omega⟩
  · rintro ⟨row, column, _, complete, leftmost, rightmost, rfl⟩
    exact ⟨row, complete, column, by omega, by omega, by omega⟩

/-! ## Text -/

/-- A pixel of the canvas lies in a pixel of a digit of the text. -/
def Inked (panel : Panel) (text : List String) (x y : Nat) : Prop :=
  ∃ row column gx gy, HasPixel text row column gx gy ∧
    panel.origin + (2 + 5 * column + gx) * panel.cell ≤ x ∧
    x < panel.origin + (2 + 5 * column + gx + 1) * panel.cell ∧
    (2 + 6 * row + gy) * panel.cell ≤ y ∧ y < (2 + 6 * row + gy + 1) * panel.cell

/-- Every coordinate that is computed for the text is a size. -/
def CoordinatesFit (panel : Panel) (stride : Nat) (text : List String) : Prop :=
  ∀ row column gx gy, HasPixel text row column gx gy →
    panel.CellFits stride (2 + 5 * column + gx, 2 + 6 * row + gy)

theorem coordinatesFit_iff :
    panel.CoordinatesFit stride text ↔ ∀ cell ∈ litCells text, panel.CellFits stride cell := by
  constructor
  · intro fit cell member
    rcases mem_litCells_iff.mp member with ⟨row, column, gx, gy, lit, rfl⟩
    exact fit row column gx gy lit
  · intro fit row column gx gy lit
    exact fit _ (mem_litCells_iff.mpr ⟨row, column, gx, gy, lit, rfl⟩)

theorem covers_iff {cell : Nat × Nat} (inside : x < stride) :
    panel.Covers stride cell (y * stride + x) ↔
      panel.origin + cell.1 * panel.cell ≤ x ∧ x < panel.origin + (cell.1 + 1) * panel.cell ∧
        cell.2 * panel.cell ≤ y ∧ y < (cell.2 + 1) * panel.cell := by
  rw [Covers, Canvas.inRectangle_iff inside, Nat.succ_mul, Nat.succ_mul, ← Nat.add_assoc]
  constructor
  · rintro ⟨⟨top, bottom⟩, left, right⟩
    exact ⟨left, right, top, bottom⟩
  · rintro ⟨left, right, top, bottom⟩
    exact ⟨⟨top, bottom⟩, left, right⟩

theorem coversText_iff (inside : x < stride) :
    panel.CoversText stride text (y * stride + x) ↔ panel.Inked text x y := by
  constructor
  · rintro ⟨cell, member, covers⟩
    rcases mem_litCells_iff.mp member with ⟨row, column, gx, gy, lit, rfl⟩
    exact ⟨row, column, gx, gy, lit, (covers_iff inside).mp covers⟩
  · rintro ⟨row, column, gx, gy, lit, covers⟩
    exact ⟨_, mem_litCells_iff.mpr ⟨row, column, gx, gy, lit, rfl⟩, (covers_iff inside).mpr covers⟩

/-! ## The whole panel -/

/-- The second canvas is the first with a panel drawn that shows a text, pixel by
pixel. -/
structure ShowsText (panel : Panel) (text : List String) (foreground background : Colour)
    (before after : Canvas) : Prop where
  stride_eq : after.stride = before.stride
  size_eq : after.pixels.size = before.pixels.size
  /-- The columns in front of the panel stay as they are. -/
  left : ∀ x y, x < panel.origin → after.pixel? x y = before.pixel? x y
  inked : ∀ x y, x < before.stride → y * before.stride + x < before.pixels.size →
    panel.Inked text x y → after.pixel? x y = some foreground
  /-- In complete rows the rest of the panel is cleared. -/
  cleared : ∀ x y, panel.origin ≤ x → x < before.stride →
    y < before.pixels.size / before.stride → ¬ panel.Inked text x y →
    after.pixel? x y = some background
  /-- An incomplete row is not. -/
  incomplete : ∀ x y, before.pixels.size / before.stride ≤ y → ¬ panel.Inked text x y →
    after.pixel? x y = before.pixel? x y

variable {foreground background : Colour} {before after : Canvas}

theorem Inked.origin_le (inked : panel.Inked text x y) : panel.origin ≤ x := by
  rcases inked with ⟨row, column, gx, gy, _, leftmost, _⟩
  exact Nat.le_trans (Nat.le_add_right panel.origin _) leftmost

theorem Draws.showsText (draws : Draws panel text foreground background before after) :
    ShowsText panel text foreground background before after := by
  have seen {x y : Nat} (inside : x < before.stride) :
      after.pixel? x y = after.pixels[y * before.stride + x]? := by
    rw [after.pixel?_of_lt (draws.stride_eq ▸ inside), draws.stride_eq]
  have unchanged {x y : Nat} (blank : ¬ panel.Inked text x y)
      (outside : ¬ (y < before.pixels.size / before.stride ∧ panel.origin ≤ x)) :
      after.pixel? x y = before.pixel? x y := by
    by_cases inside : x < before.stride
    · rw [seen inside, before.pixel?_of_lt inside]
      refine draws.other _ (mt (coversText_iff inside).mp blank) fun listed => outside ?_
      rcases (Canvas.inRectangle_iff inside).mp listed with ⟨⟨_, complete⟩, leftmost, _⟩
      exact ⟨complete, leftmost⟩
    · rw [Canvas.pixel?, Canvas.pixel?, draws.stride_eq, if_neg inside, if_neg inside]
  refine { stride_eq := draws.stride_eq, size_eq := draws.size_eq, left := ?left, inked := ?inked,
           cleared := ?cleared, incomplete := ?incomplete }
  case left =>
    intro x y outside
    exact unchanged (fun inked => Nat.not_le_of_lt outside inked.origin_le)
      fun listed => Nat.not_le_of_lt outside listed.2
  case inked =>
    intro x y inside bound inked
    rw [seen inside]
    exact draws.lit _ ((coversText_iff inside).mpr inked) bound
  case cleared =>
    intro x y listed inside complete blank
    have member : panel.InColumns before.stride before.pixels.size (y * before.stride + x) :=
      (Canvas.inRectangle_iff inside).mpr ⟨⟨Nat.zero_le y, complete⟩, listed, inside⟩
    rw [seen inside]
    exact draws.dark _ (mt (coversText_iff inside).mp blank) member
      (Canvas.position_lt_of_complete complete inside)
  case incomplete =>
    intro x y below blank
    exact unchanged blank fun listed => Nat.not_lt_of_le below listed.1

/-- In complete rows the panel's columns do not depend on the canvas it was drawn on. -/
theorem ShowsText.agree {otherBefore otherAfter : Canvas}
    (shows : ShowsText panel text foreground background before after)
    (others : ShowsText panel text foreground background otherBefore otherAfter)
    (stride_eq : otherBefore.stride = before.stride)
    (size_eq : otherBefore.pixels.size = before.pixels.size)
    (listed : panel.origin ≤ x) (inside : x < before.stride)
    (complete : y < before.pixels.size / before.stride) :
    after.pixel? x y = otherAfter.pixel? x y := by
  by_cases inked : panel.Inked text x y
  · have bound := Canvas.position_lt_of_complete complete inside
    rw [shows.inked x y inside bound inked,
      others.inked x y (stride_eq ▸ inside) (size_eq ▸ stride_eq ▸ bound) inked]
  · rw [shows.cleared x y listed inside complete inked,
      others.cleared x y listed (stride_eq ▸ inside) (size_eq ▸ stride_eq ▸ complete) inked]

/-- A coordinate that is no size is all that can stop the drawing. -/
theorem draw_of_not_coordinatesFit {canvas : Canvas} {machine : Machine}
    (wide : canvas.stride ≠ 0) (misfit : ¬ panel.CoordinatesFit canvas.stride (lines machine)) :
    panel.draw machine canvas foreground background = .error .overflow := by
  have cleared := canvas.fillRectangle_paints panel.origin canvas.stride 0
    (canvas.pixels.size / canvas.stride) background
  have one : ∃ cell ∈ litCells (lines machine), ¬ panel.CellFits canvas.stride cell := by
    rw [coordinatesFit_iff] at misfit
    rcases Classical.not_forall.mp misfit with ⟨cell, misfit⟩
    exact ⟨cell, Classical.not_imp.mp misfit⟩
  have fails {cell : Nat × Nat} (misfits : ¬ panel.CellFits canvas.stride cell) :
      Canvas.Fails canvas.stride canvas.pixels.size
        (fun canvas => panel.fillCell foreground canvas cell) .overflow := by
    intro other strideEq _
    exact fillCell_of_not_fits (strideEq ▸ misfits) foreground
  have each : ∀ cell ∈ litCells (lines machine),
      Canvas.Draws canvas.stride canvas.pixels.size
          (fun canvas => panel.fillCell foreground canvas cell) (panel.Covers canvas.stride cell)
          (fun _ => foreground) ∨
        Canvas.Fails canvas.stride canvas.pixels.size
          (fun canvas => panel.fillCell foreground canvas cell) .overflow := by
    intro cell _
    by_cases fit : panel.CellFits canvas.stride cell
    · exact .inl (fit.draws foreground)
    · exact .inr (fails fit)
  rcases one with ⟨cell, member, misfits⟩
  rw [draw_eq wide]
  exact Canvas.Fails.foldlM _ each ⟨cell, member, fails misfits⟩ _ cleared.stride_eq cleared.size_eq

theorem forScale_of_lt {scale : Nat} (small : 32 * scale < Size.limit) (origin : Nat) :
    forScale scale origin = .ok ⟨max 1 (32 * scale / 70), origin⟩ := by
  have tall : Size.mul Screen.height scale = .ok (32 * scale) := Size.mul_of_lt small
  rw [forScale, tall, Nat.max_comm]
  rfl

/-- **The panel draws its text and nothing else.** For a canvas with columns and a
buffer of any length, clearing the panel's columns never leaves the buffer.  If all
coordinates of the text are sizes, the panel is drawn, and then: nothing changes
in front of the panel; a pixel is the foreground exactly where a digit of the text
has a pixel; the rest of the panel is the background in complete rows and unchanged
in an incomplete one.  If not, drawing is an overflow. -/
theorem panel_draws_exactly_its_text {scale origin : Nat} (small : 32 * scale < Size.limit)
    {canvas : Canvas} (wide : 1 ≤ canvas.stride) (machine : Machine)
    (foreground background : Colour) :
    ∃ panel, forScale scale origin = .ok panel ∧
      panel.cell = max 1 (32 * scale / 70) ∧ panel.origin = origin ∧
      (∃ cleared, panel.clearPixels background canvas = .ok cleared ∧
        panel.draw machine canvas foreground background =
          (litCells (lines machine)).foldlM (panel.fillCell foreground) cleared) ∧
      (panel.CoordinatesFit canvas.stride (lines machine) →
        ∃ drawn, panel.draw machine canvas foreground background = .ok drawn ∧
          ShowsText panel (lines machine) foreground background canvas drawn) ∧
      (¬ panel.CoordinatesFit canvas.stride (lines machine) →
        panel.draw machine canvas foreground background = .error .overflow) := by
  have columns : canvas.stride ≠ 0 := Nat.ne_of_gt wide
  refine ⟨_, forScale_of_lt small origin, rfl, rfl,
    ⟨_, clearPixels_eq _ background canvas, draw_eq columns machine foreground background⟩, ?_,
    draw_of_not_coordinatesFit columns⟩
  intro fit
  rcases exists_draw_of_cellFits columns (coordinatesFit_iff.mp fit) foreground background with
    ⟨drawn, drew, draws⟩
  exact ⟨drawn, drew, draws.showsText⟩

/-- The program counter comes first and begins with a two, whose sprite begins at
its upper left corner. -/
theorem hasPixel_initial : HasPixel (lines Machine.initial) 0 0 0 0 := by
  have digits : Hex.upper 3 0x200 = "200" := by
    rw [Hex.upper_eq_fixedUpper (by decide) (by decide)]
    decide
  have found : (spaced [Hex.upper 3 0x200, Hex.upper 4 Machine.initial.index.toNat,
      Hex.upper 1 Machine.initial.stack.depth]).toList[0]? = some '2' := by
    simp [spaced, digits]
  exact ⟨by decide, by decide, by decide, by decide, _, '2', 2, rfl, found, by decide, by decide⟩

/-- On a canvas of five columns and eighteen pixels the panel begins in the third
column, and only one column of one digit is left of its text. -/
theorem first_digit_is_cut_off_at_the_edge : ∃ panel drawn,
    forScale 1 2 = .ok panel ∧
      panel.draw Machine.initial ⟨5, Array.replicate 18 7⟩ 1 0 = .ok drawn ∧
      drawn.pixel? 4 2 = some 1 ∧ drawn.pixel? 3 2 = some 0 ∧ drawn.pixel? 1 2 = some 7 ∧
      drawn.pixel? 2 3 = some 7 := by
  rcases @panel_draws_exactly_its_text 1 2 (by decide) ⟨5, Array.replicate 18 7⟩ (by decide)
    Machine.initial 1 0 with ⟨panel, sized, cell, origin, _, draws, _⟩
  have single : panel.cell = 1 := cell
  have fit : panel.CoordinatesFit 5 (lines Machine.initial) := by
    rintro row column gx gy ⟨inRows, inColumns, across, down, _⟩
    have limit : 1000 < Size.limit := by decide
    refine ⟨?_, ?_, ?_⟩
    · simp only [single, origin]
      omega
    · simp only [single]
      omega
    · rintro position ⟨y, x, _, below, _, inside, rfl⟩
      simp only [single] at below
      omega
  rcases draws fit with ⟨drawn, drew, shows⟩
  have inked : panel.Inked (lines Machine.initial) 4 2 :=
    ⟨0, 0, 0, 0, hasPixel_initial, by omega, by omega, by omega, by omega⟩
  have blank {x y : Nat} (left : x < 4) : ¬ panel.Inked (lines Machine.initial) x y := by
    rintro ⟨row, column, gx, gy, _, leftmost, _⟩
    rw [single, origin] at leftmost
    omega
  refine ⟨panel, drawn, sized, drew, ?_, ?_, ?_, ?_⟩
  · exact shows.inked 4 2 (by decide) (by decide) inked
  · exact shows.cleared 3 2 (by omega) (by decide) (by decide) (blank (by decide))
  · rw [shows.left 1 2 (by omega)]
    decide
  · rw [shows.incomplete 2 3 (by decide) (blank (by decide))]
    decide

end Panel
end Chip8
