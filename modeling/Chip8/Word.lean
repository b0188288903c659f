import Chip8.Size

namespace Chip8

/-!
# Machine words

Short numbers are words of a fixed width.  As with sizes, an operation whose exact
result is no number of this width is a fault.  So is a shift by as many places as
the word has.
-/

namespace Word

variable {width : Nat}

def sub (a b : BitVec width) : Except Fault (BitVec width) :=
  if a.usubOverflow b then .error .overflow else .ok (a - b)

def mul (a b : BitVec width) : Except Fault (BitVec width) :=
  if a.umulOverflow b then .error .overflow else .ok (a * b)

/-- Bits that leave the word at the left are lost. -/
def shiftLeft (word : BitVec width) (places : Nat) : Except Fault (BitVec width) :=
  if places < width then .ok (word <<< places) else .error .overflow

def shiftRight (word : BitVec width) (places : Nat) : Except Fault (BitVec width) :=
  if places < width then .ok (word >>> places) else .error .overflow

end Word
end Chip8
