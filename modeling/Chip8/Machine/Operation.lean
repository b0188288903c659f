import Chip8.Journal

namespace Chip8

/-!
# Operations

Everything that can be done to a machine from outside, as data.  Performing an
operation gives a reply and the state after it; a list of operations is
performed in order, and one that fails does not stop the others.
-/

inductive Operation where
  | reset
  | load (rom : Rom)
  | step
  | run (count : Nat)
  | tick
  | setKey (key : UInt8) (pressed : Bool)
  | releaseKeys
  | takeRedraw
  deriving DecidableEq

inductive Reply where
  | done
  | ran (count : Nat)
  | redraw (due : Bool)
  | failed (failure : Error)
  deriving DecidableEq, Repr

namespace Reply

/-- The reply to an action that answers with a given reply when it succeeds. -/
def ofResult (reply : Reply) : EStateM.Result Error Machine Unit → Reply × Machine
  | .ok _ machine => (reply, machine)
  | .error failure machine => (.failed failure, machine)

end Reply

namespace Operation

def perform (noise : Noise) (operation : Operation) (machine : Machine) : Reply × Machine :=
  match operation with
  | .reset => Reply.ofResult .done (Machine.reset machine)
  | .load rom => Reply.ofResult .done (Machine.load rom machine)
  | .step => Reply.ofResult .done (Machine.step noise machine)
  | .run count => Reply.ofResult (.ran count) (Machine.run noise count machine)
  | .tick => (.done, machine.tick)
  | .setKey key pressed => (.done, machine.setKey key pressed)
  | .releaseKeys => (.done, machine.releaseKeys)
  | .takeRedraw =>
      let (due, next) := machine.takeRedraw
      (.redraw due, next)

/-- The replies to operations performed in order, and the last state. -/
def performAll (noise : Noise) : List Operation → Machine → List Reply × Machine
  | [], machine => ([], machine)
  | operation :: rest, machine =>
      let (reply, next) := operation.perform noise machine
      let (replies, last) := performAll noise rest next
      (reply :: replies, last)

/-- The state after operations performed in order. -/
def stateAfter (noise : Noise) (operations : List Operation) (machine : Machine) : Machine :=
  (performAll noise operations machine).2

/-- What performing an operation reports. -/
def entries (noise : Noise) (operation : Operation) (machine : Machine) : List Entry :=
  match operation with
  | .reset => [Entry.reset]
  | .load rom => machine.loadEntries rom
  | .step => machine.runEntries noise 1
  | .run count => machine.runEntries noise count
  | _ => []

end Operation

namespace Machine

/-- The states that operations lead to from power-on, whether or not they succeed. -/
inductive Reachable (noise : Noise) : Machine → Prop
  | initial : Reachable noise Machine.initial
  | perform {machine : Machine} (operation : Operation) :
      Reachable noise machine → Reachable noise (operation.perform noise machine).2

end Machine
end Chip8
