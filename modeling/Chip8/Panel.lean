import Chip8.Canvas
import Chip8.Machine.Basic

namespace Chip8

/-!
# The debug panel

Beside the screen the panel shows the state of the machine in hexadecimal
digits, drawn with the font of the machine itself.  It is a grid of square
cells.  A digit takes four by five of them and is separated from the next by
one, and a margin of two runs around the text.
-/

structure Panel where
  /-- The side of a cell in pixels. -/
  cell : Nat
  /-- The column of the canvas at which the panel begins. -/
  origin : Nat
  deriving DecidableEq, Repr

namespace Panel

def glyphPitchX : Nat := 5
def glyphPitchY : Nat := 6
def margin : Nat := 2
def columns : Nat := 12
def rows : Nat := 11

def cellsWide : Nat := columns * glyphPitchX + 2 * margin
def cellsTall : Nat := rows * glyphPitchY + 2 * margin

/-- The panel for a screen scale: as large as fits the height of the screen,
with cells of at least one pixel. -/
def forScale (scale origin : Nat) : Except Fault Panel := do
  let tall ← Size.mul Screen.height scale
  return { cell := max (tall / cellsTall) 1, origin }

/-- The width in pixels. -/
def width (panel : Panel) : Except Fault Nat :=
  Size.mul cellsWide panel.cell

/-! ## The text -/

def spaced (words : List String) : String :=
  " ".intercalate words

/-- Lines of at most two opcodes.  The newest two share the last line, so of an
odd number the oldest stands alone. -/
def pairLines : (newestFirst : List String) → List String
  | [] => []
  | [oldest] => [oldest]
  | newer :: older :: rest => pairLines rest ++ [spaced [older, newer]]

/-- The registers on one of the four register lines. -/
def registerLine (registers : Registers) (line : Nat) : String :=
  spaced ((List.finRange 16).filterMap fun x =>
    if x.val / 4 = line then some (Hex.upper 2 (registers.get x).toNat) else none)

/-- The state of a machine as lines of digits. -/
def lines (machine : Machine) : List String :=
  [spaced [Hex.upper 3 machine.pc.toNat, Hex.upper 4 machine.index.toNat,
    Hex.upper 1 machine.stack.depth]] ++
  (List.range 4).map (registerLine machine.registers) ++
  [spaced [Hex.upper 2 machine.delay.count.toNat, Hex.upper 2 machine.sound.count.toNat]] ++
  pairLines (machine.recent.map fun executed => Hex.upper 4 executed.opcode.toNat)

/-! ## Drawing -/

/-- The cells that the sprite of a digit lights when its corner is at a cell. -/
def glyphCells (digit x y : Nat) : List (Nat × Nat) :=
  (List.range glyphHeight).flatMap fun row =>
    ((List.range 4).filter (spriteBit (glyphRow digit row))).map
      fun column => (x + column, y + row)

/-- The cells that a text lights.  What does not fit the grid is left out, and
so is every character that is no digit. -/
def litCells (text : List String) : List (Nat × Nat) :=
  (text.take rows).zipIdx.flatMap fun (line, row) =>
    (line.toList.take columns).zipIdx.flatMap fun (c, column) =>
      match Hex.digit? c with
      | some digit => glyphCells digit (margin + column * glyphPitchX) (margin + row * glyphPitchY)
      | none => []

/-- Colours one cell of the grid, clipped at the right edge and at the end of
the canvas.  The positions of its pixels have to be sizes. -/
def fillCell (panel : Panel) (colour : Colour) (canvas : Canvas) (cell : Nat × Nat) :
    Except Fault Canvas := do
  let left ← Size.add panel.origin (← Size.mul cell.1 panel.cell)
  let top ← Size.mul cell.2 panel.cell
  let bottom ← Size.add top panel.cell
  let right ← Size.add left panel.cell
  if left < min right canvas.stride then
    let lastRow ← Size.mul (bottom - 1) canvas.stride
    let _ ← Size.add lastRow (min right canvas.stride - 1)
  return canvas.fillRectangle left right top bottom colour

/-- Clears the panel's columns in all complete rows and draws the state of a
machine over them. -/
def draw (panel : Panel) (machine : Machine) (canvas : Canvas)
    (foreground background : Colour) : Except Fault Canvas := do
  let height ← Size.div canvas.pixels.size canvas.stride
  let cleared := canvas.fillRectangle panel.origin canvas.stride 0 height background
  (litCells (lines machine)).foldlM (panel.fillCell foreground) cleared

end Panel
end Chip8
