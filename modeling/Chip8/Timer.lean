namespace Chip8

/-!
# Timers

A timer counts down to zero and stays there.  The timer clock tells how many
periods of a sixtieth of a second have passed; the part of a period that is
left over is kept for the next reading.
-/

structure Timer where
  count : UInt8
  deriving DecidableEq, Repr

namespace Timer

def stopped : Timer := ⟨0⟩

def isActive (timer : Timer) : Bool := 0 < timer.count

/-- One period has passed. -/
def tick (timer : Timer) : Timer :=
  ⟨if timer.count = 0 then 0 else timer.count - 1⟩

end Timer

/-- A clock knows up to which instant its periods have been counted.  Instants
are nanoseconds after a common origin. -/
structure TimerClock where
  countedTo : Nat
  deriving DecidableEq, Repr

namespace TimerClock

/-- A sixtieth of a second in whole nanoseconds. -/
def period : Nat := 1000000000 / 60

/-- The whole periods that have passed at an instant.  Their number is counted
in thirty-two bits.  An instant before the last count has none. -/
def due (clock : TimerClock) (now : Nat) : Nat × TimerClock :=
  let ticks := (now - clock.countedTo) / period % UInt32.size
  (ticks, ⟨clock.countedTo + period * ticks⟩)

end TimerClock
end Chip8
