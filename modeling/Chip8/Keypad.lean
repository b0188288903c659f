namespace Chip8

/-!
# The keypad

Sixteen keys, one for each hexadecimal digit.  Keys are named by bytes; a byte
above 0xF names no key, so pressing it does nothing and it is never down.
-/

abbrev Key := Fin 16

structure Keypad where
  down : Vector Bool 16
  deriving DecidableEq

namespace Keypad

/-- No key is down. -/
def released : Keypad where
  down := Vector.replicate 16 false

def set (keypad : Keypad) (key : UInt8) (pressed : Bool) : Keypad where
  down := keypad.down.setIfInBounds key.toNat pressed

def isDown (keypad : Keypad) (key : UInt8) : Bool :=
  keypad.down[key.toNat]?.getD false

/-- The lowest key that is down. -/
def firstDown (keypad : Keypad) : Option Key :=
  (List.finRange 16).find? fun key => keypad.down[key]

end Keypad
end Chip8
