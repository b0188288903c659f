import Chip8.Panel
import Chip8.Settings

namespace Chip8

/-!
# The window

The window shows the screen magnified by the scale, and the debug panel to its
right if it is wanted.  Its sizes are computed before anything can be shown,
and sizes that do not fit are a fault.
-/

/-- Keys of the host's keyboard.  Those with no meaning keep their name. -/
inductive HostKey where
  | digit1 | digit2 | digit3 | digit4
  | q | w | e | r
  | a | s | d | f
  | z | x | c | v
  | escape
  | f1
  | f2
  | other (name : String)
  deriving DecidableEq, Repr

/-- The keypad key of each host key that has one.  The four rows of the keypad
lie under the left hand. -/
def keymap : List (HostKey × Key) := [
  (.digit1, 0x1), (.digit2, 0x2), (.digit3, 0x3), (.digit4, 0xC),
  (.q, 0x4), (.w, 0x5), (.e, 0x6), (.r, 0xD),
  (.a, 0x7), (.s, 0x8), (.d, 0x9), (.f, 0xE),
  (.z, 0xA), (.x, 0x0), (.c, 0xB), (.v, 0xF)]

structure Window where
  scale : Nat
  width : Nat
  height : Nat
  panel : Option Panel
  deriving DecidableEq, Repr

namespace Window

/-- The window title, with a status in brackets if there is one. -/
def title : Option String → String
  | none => "yac8 - ESC to exit"
  | some status => "yac8 - ESC to exit [" ++ status ++ "]"

/-- The shortest time between two pictures, in microseconds. -/
def frameTime : Nat := 16600

def layout (scale : Nat) (debug : Bool) : Except Fault Window := do
  let gameWidth ← Size.mul Screen.width scale
  if debug then
    let panel ← Panel.forScale scale gameWidth
    let width ← Size.add gameWidth (← panel.width)
    return { scale, width, height := ← Size.mul Screen.height scale, panel := some panel }
  else
    return { scale, width := gameWidth, height := ← Size.mul Screen.height scale, panel := none }

/-- A canvas of the background colour, if a buffer of its size can exist. -/
def blankCanvas (window : Window) : Except Fault Canvas := do
  let size ← Size.mul window.width window.height
  if size < Size.pixelLimit then
    return Canvas.filled window.width window.height Colour.background
  else throw .overflow

def pixelColour (lit : Bool) : Colour :=
  if lit then Colour.foreground else Colour.background

/-- Paints one row of one magnified pixel. -/
def paintRun (window : Window) (screen : Screen) (x y : Nat) (canvas : Canvas) (line : Nat) :
    Except Fault Canvas :=
  canvas.fillRun ((y * window.scale + line) * window.width + x * window.scale) window.scale
    (pixelColour (screen.pixel x y))

/-- Paints every pixel of the screen. -/
def paintScreen (window : Window) (screen : Screen) (canvas : Canvas) : Except Fault Canvas :=
  (List.range Screen.height).foldlM (fun canvas y =>
    (List.range Screen.width).foldlM (fun canvas x =>
      (List.range window.scale).foldlM (window.paintRun screen x y) canvas) canvas) canvas

/-- Brings a canvas up to date with a machine.  The screen is painted only if
it changed; the panel is always drawn. -/
def refresh (window : Window) (machine : Machine) (canvas : Canvas) :
    Except Fault (Canvas × Machine) := do
  let (due, shown) := machine.takeRedraw
  let painted ← if due then window.paintScreen machine.screen canvas else pure canvas
  match window.panel with
  | none => return (painted, shown)
  | some panel =>
      return (← panel.draw machine painted Colour.foreground Colour.background, shown)

end Window
end Chip8
