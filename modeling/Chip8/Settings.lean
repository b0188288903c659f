namespace Chip8

/-!
# Settings

What a player can choose.  A scale of zero is raised to one, and every frame
executes at least one instruction.
-/

structure Settings where
  romPath : String
  /-- The side of a screen pixel in window pixels. -/
  scale : Nat
  /-- Instructions per second. -/
  speed : Nat
  debug : Bool
  deriving DecidableEq, Repr

namespace Settings

def defaultScale : Nat := 10
def defaultSpeed : Nat := 700

/-- Frames shown per second. -/
def frameRate : Nat := 60

/-- The settings of a player who chooses nothing. -/
def forRom (romPath : String) : Settings where
  romPath
  scale := defaultScale
  speed := defaultSpeed
  debug := false

def withScale (settings : Settings) (scale : Nat) : Settings :=
  { settings with scale := max scale 1 }

def withSpeed (settings : Settings) (speed : Nat) : Settings :=
  { settings with speed }

def withDebug (settings : Settings) (debug : Bool) : Settings :=
  { settings with debug }

def stepsPerFrame (settings : Settings) : Nat :=
  max (settings.speed / frameRate) 1

end Settings
end Chip8
