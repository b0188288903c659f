namespace Chip8

/-!
# Sizes

Widths, heights and buffer positions are unsigned numbers of sixty-four bits.
An operation whose exact result does not fit is a fault and has no result; it
never wraps.
-/

/-- What can go wrong in the arithmetic of sizes and words and in writing to a buffer. -/
inductive Fault where
  | overflow
  | divisionByZero
  | outOfBounds
  deriving DecidableEq, Repr

namespace Size

/-- The first number that is no size. -/
def limit : Nat := UInt64.size

/-- The most pixels a buffer can hold, at four bytes a pixel.  A buffer takes no
more bytes than half of the sizes. -/
def pixelLimit : Nat := UInt64.size / 2 / 4

def check (number : Nat) : Except Fault Nat :=
  if number < limit then .ok number else .error .overflow

def add (a b : Nat) : Except Fault Nat :=
  check (a + b)

def mul (a b : Nat) : Except Fault Nat :=
  check (a * b)

def div (a b : Nat) : Except Fault Nat :=
  if b = 0 then .error .divisionByZero else .ok (a / b)

theorem check_eq_ok_iff (number result : Nat) :
    check number = .ok result ↔ number < limit ∧ number = result := by
  unfold check
  by_cases small : number < limit <;> simp [small]

end Size
end Chip8
