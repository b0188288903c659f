import Chip8.Size

namespace Chip8

/-!
# Canvases

A canvas is a buffer of colours with a row length, its stride.  The pixel in
column `x` of row `y` lies at position `y * stride + x`, so a column beyond the
stride would belong to a later row.  The last row may be incomplete.
-/

abbrev Colour := UInt32

namespace Colour

def ofRgb (red green blue : UInt16) : Colour :=
  (red.toUInt32 <<< 16) ||| (green.toUInt32 <<< 8) ||| blue.toUInt32

def foreground : Colour := ofRgb 0 127 255
def background : Colour := ofRgb 0 0 0

end Colour

structure Canvas where
  stride : Nat
  pixels : Array Colour
  deriving DecidableEq

namespace Canvas

/-- A canvas of one colour. -/
def filled (width height : Nat) (colour : Colour) : Canvas where
  stride := width
  pixels := Array.replicate (width * height) colour

/-- The pixel in a column and a row. -/
def pixel? (canvas : Canvas) (x y : Nat) : Option Colour :=
  if x < canvas.stride then canvas.pixels[y * canvas.stride + x]? else none

/-- Colours `count` positions from `start` on, as far as they exist. -/
def colourRun (pixels : Array Colour) (start count : Nat) (colour : Colour) : Array Colour :=
  match count with
  | 0 => pixels
  | rest + 1 => colourRun (pixels.setIfInBounds start colour) (start + 1) rest colour

/-- Colours `count` rows of the columns from `left` on, `columns` wide, from
row `top` on, as far as these positions exist. -/
def colourRows (pixels : Array Colour) (stride left columns top count : Nat)
    (colour : Colour) : Array Colour :=
  match count with
  | 0 => pixels
  | rest + 1 =>
      colourRows (colourRun pixels (top * stride + left) columns colour)
        stride left columns (top + 1) rest colour

/-- Colours a run of positions.  All of them have to exist. -/
def fillRun (canvas : Canvas) (start count : Nat) (colour : Colour) : Except Fault Canvas :=
  if start + count ≤ canvas.pixels.size then
    .ok { canvas with pixels := colourRun canvas.pixels start count colour }
  else .error .outOfBounds

/-- Rows that have at least one position, the incomplete one included. -/
def rowLimit (canvas : Canvas) : Nat :=
  canvas.pixels.size / canvas.stride + 1

/-- Colours the columns from `left` to before `right` in the rows from `top` to
before `bottom`.  Columns end at the stride and rows at the end of the buffer. -/
def fillRectangle (canvas : Canvas) (left right top bottom : Nat) (colour : Colour) : Canvas :=
  { canvas with
    pixels := colourRows canvas.pixels canvas.stride left (min right canvas.stride - left)
      top (min bottom canvas.rowLimit - top) colour }

end Canvas
end Chip8
