import Chip8.Error

namespace Chip8

/-!
# The call stack

Return addresses of the subroutines that have not returned yet.  At most
sixteen fit.  Taking from an empty stack and adding to a full one are errors.
-/

structure CallStack where
  /-- The newest return address comes first. -/
  newestFirst : List UInt16
  deriving DecidableEq, Repr

namespace CallStack

/-- How many return addresses fit. -/
def capacity : Nat := 16

def empty : CallStack := ⟨[]⟩

def depth (stack : CallStack) : Nat := stack.newestFirst.length

def oldestFirst (stack : CallStack) : List UInt16 := stack.newestFirst.reverse

def isFull (stack : CallStack) : Bool := capacity ≤ stack.depth

def push (stack : CallStack) (address : UInt16) : Except Error CallStack :=
  if stack.isFull then .error (.stackOverflow capacity)
  else .ok ⟨address :: stack.newestFirst⟩

/-- The newest return address and the stack without it. -/
def pop (stack : CallStack) : Except Error (UInt16 × CallStack) :=
  match stack.newestFirst with
  | [] => .error .stackUnderflow
  | address :: rest => .ok (address, ⟨rest⟩)

/-- The newest return address, which stays on the stack. -/
def top (stack : CallStack) : Except Error UInt16 :=
  match stack.newestFirst with
  | [] => .error .stackUnderflow
  | address :: _ => .ok address

end CallStack
end Chip8
