namespace Chip8

/-!
# The screen

A monochrome picture of 64 by 32 pixels that wraps at both edges.  A sprite is
a list of rows of eight pixels.  Painting it switches one cell of the screen
for each of its set bits, row by row, and reports whether a cell was switched
off on the way.  A screen that was cleared or painted on is marked as changed
until the mark is taken.
-/

/-- One of the pixels of the screen, counted row by row. -/
abbrev Cell := Fin 2048

namespace Cell

/-- The cell in a column and a row, both wrapped into the screen. -/
def wrapped (x y : Nat) : Cell :=
  ⟨y % 32 * 64 + x % 64, by omega⟩

end Cell

/-- The pixel of a sprite row, counted from the left. -/
def spriteBit (row : UInt8) (column : Nat) : Bool :=
  row.toNat.testBit (7 - column)

/-- The cells that a sprite switches when its corner is at `x` and `y`, row by
row and from left to right.  A cell occurs once for each bit that falls on it. -/
def spriteCells (x y : Nat) : List UInt8 → List Cell
  | [] => []
  | row :: rest =>
      ((List.range 8).filter (spriteBit row)).map (fun column => Cell.wrapped (x + column) y) ++
        spriteCells x (y + 1) rest

structure Screen where
  lit : Vector Bool 2048
  changed : Bool
  deriving DecidableEq

namespace Screen

def width : Nat := 64
def height : Nat := 32

/-- Dark, and still to be shown. -/
def initial : Screen where
  lit := Vector.replicate 2048 false
  changed := true

/-- The pixel in a column and a row, both wrapped into the screen. -/
def pixel (screen : Screen) (x y : Nat) : Bool :=
  screen.lit[Cell.wrapped x y]

def clear (_screen : Screen) : Screen := initial

/-- Switches one cell and notes whether it was lit. -/
def switch (state : Bool × Vector Bool 2048) (cell : Cell) : Bool × Vector Bool 2048 :=
  (state.1 || state.2[cell], state.2.set cell (!state.2[cell]))

/-- Switches cells in order; true if a cell was switched off on the way. -/
def switchAll (lit : Vector Bool 2048) (cells : List Cell) : Bool × Vector Bool 2048 :=
  cells.foldl switch (false, lit)

/-- Paints a sprite and tells whether it met a lit pixel. -/
def paint (screen : Screen) (x y : UInt8) (sprite : List UInt8) : Bool × Screen :=
  let (collided, lit) := switchAll screen.lit (spriteCells x.toNat y.toNat sprite)
  (collided, { lit, changed := true })

/-- Whether the screen changed since the mark was last taken. -/
def takeChanged (screen : Screen) : Bool × Screen :=
  (screen.changed, { screen with changed := false })

def isBlank (screen : Screen) : Bool :=
  screen.lit.all (!·)

def litCount (screen : Screen) : Nat :=
  screen.lit.toArray.count true

end Screen
end Chip8
