import Chip8.Timer
import Mathlib.Algebra.GroupWithZero.Nat
import Mathlib.Data.List.Induction

namespace Chip8

/-!
# Counting periods

A clock is read at instants that may come in any order.  Each reading moves the
clock on by the periods it reports and by nothing else, so what was counted is
always the time between the start and the clock, and what is left over waits for
the next reading.

A reading counts in thirty-two bits.  When more periods have passed, the ones
that were cut off are not lost either: the clock stays behind by them, and the
sum of the readings is right up to a multiple of 2^32.
-/

namespace TimerClock

/-- What the readings at some instants report, and the clock after the last. -/
def readAll (clock : TimerClock) : List Nat → List Nat × TimerClock
  | [] => ([], clock)
  | now :: later =>
      let (ticks, next) := clock.due now
      let (rest, last) := next.readAll later
      (ticks :: rest, last)

/-- The last of the instants and the start, in time. -/
def latest (start : Nat) (instants : List Nat) : Nat :=
  instants.foldl max start

/-- No reading finds so many periods that their number is cut. -/
def Uncut (clock : TimerClock) (instants : List Nat) : Prop :=
  ∀ (earlier : List Nat) (now : Nat), earlier ++ [now] <+: instants →
    (now - (clock.readAll earlier).2.countedTo) / 16666666 < 2 ^ 32

/-! ## One reading -/

section Reading

variable (clock : TimerClock) (now : Nat)

theorem due_fst : (clock.due now).1 = (now - clock.countedTo) / 16666666 % 2 ^ 32 := by
  rfl

theorem due_countedTo :
    (clock.due now).2.countedTo = clock.countedTo + 16666666 * (clock.due now).1 := by
  rfl

/-- A reading counts no more than the time that has passed. -/
theorem mul_due_le : 16666666 * (clock.due now).1 ≤ now - clock.countedTo := by
  rw [due_fst]
  calc
    16666666 * ((now - clock.countedTo) / 16666666 % 2 ^ 32)
        ≤ 16666666 * ((now - clock.countedTo) / 16666666) :=
      Nat.mul_le_mul_left _ (Nat.mod_le _ _)
    _ ≤ now - clock.countedTo := Nat.mul_div_le _ _

/-- A reading that is not cut leaves less than a period over. -/
theorem lt_due_countedTo {clock : TimerClock} {now : Nat}
    (uncut : (now - clock.countedTo) / 16666666 < 2 ^ 32) :
    now < (clock.due now).2.countedTo + 16666666 := by
  rw [due_countedTo, due_fst, Nat.mod_eq_of_lt uncut]
  omega

end Reading

/-! ## All readings -/

section Readings

variable (clock : TimerClock) (start now : Nat) (earlier instants : List Nat)

theorem readAll_concat :
    clock.readAll (earlier ++ [now]) =
      let before := clock.readAll earlier
      (before.1 ++ [(before.2.due now).1], (before.2.due now).2) := by
  induction earlier generalizing clock with
  | nil => rfl
  | cons first rest ih =>
      simp only [List.cons_append, readAll, ih]

theorem latest_concat : latest start (earlier ++ [now]) = max (latest start earlier) now := by
  unfold latest
  rw [List.foldl_append]
  rfl

/-- The clock is ahead of its start by exactly the periods it has reported. -/
theorem countedTo_readAll :
    (clock.readAll instants).2.countedTo =
      clock.countedTo + 16666666 * (clock.readAll instants).1.sum := by
  induction instants using List.reverseRecOn with
  | nil => rfl
  | append_singleton earlier now ih =>
      rw [readAll_concat]
      dsimp only
      rw [due_countedTo, ih, List.sum_append, List.sum_singleton]
      omega

/-- By induction on the readings: none moves the clock past its own instant. -/
theorem countedTo_le_latest :
    (clock.readAll instants).2.countedTo ≤ latest clock.countedTo instants := by
  induction instants using List.reverseRecOn with
  | nil => exact Nat.le_refl clock.countedTo
  | append_singleton earlier now ih =>
      have counted := mul_due_le (clock.readAll earlier).2 now
      rw [readAll_concat, latest_concat]
      dsimp only
      rw [due_countedTo]
      omega

variable {clock earlier instants}

theorem Uncut.of_concat {now : Nat} (uncut : clock.Uncut (earlier ++ [now])) :
    clock.Uncut earlier := by
  intro past instant listed
  apply uncut
  exact listed.trans (List.prefix_append earlier [now])

/-- By induction on the readings: if none is cut, each leaves less than a period
over, and the leftover of the latest instant is never smaller than that of an
earlier one. -/
theorem latest_lt_countedTo (uncut : clock.Uncut instants) :
    latest clock.countedTo instants < (clock.readAll instants).2.countedTo + 16666666 := by
  induction instants using List.reverseRecOn with
  | nil => exact Nat.lt_add_of_pos_right (by decide)
  | append_singleton earlier now ih =>
      have before := ih uncut.of_concat
      have reading := lt_due_countedTo (uncut earlier now (List.prefix_refl _))
      have moved := due_countedTo (clock.readAll earlier).2 now
      rw [readAll_concat, latest_concat]
      dsimp only
      apply Nat.max_lt.mpr
      constructor
      · omega
      · exact reading

end Readings

/-- After every reading the clock is ahead of its start by the periods that were
reported.  It never goes back and never passes the latest instant, and what a
reading moves it by is no more than the time that has passed.  If no reading was
cut, the periods reported are the whole periods between the start and the latest
instant.  In any case a reading that is not made before the clock makes their
number right up to a multiple of 2^32. -/
theorem clock_neither_loses_nor_invents (clock : TimerClock) (earlier : List Nat) (now : Nat) :
    let start := clock.countedTo
    let before := clock.readAll earlier
    let after := clock.readAll (earlier ++ [now])
    after.2.countedTo = start + 16666666 * after.1.sum ∧
    before.2.countedTo ≤ after.2.countedTo ∧
    after.2.countedTo ≤ latest start (earlier ++ [now]) ∧
    (∃ ticks, after.1 = before.1 ++ [ticks] ∧ ticks < 2 ^ 32 ∧
      16666666 * ticks ≤ now - before.2.countedTo) ∧
    (clock.Uncut (earlier ++ [now]) →
      after.1.sum = (latest start (earlier ++ [now]) - start) / 16666666) ∧
    (before.2.countedTo ≤ now →
      after.1.sum % 2 ^ 32 = (now - start) / 16666666 % 2 ^ 32) := by
  intro start before after
  have counted : after.2.countedTo = start + 16666666 * after.1.sum :=
    clock.countedTo_readAll (earlier ++ [now])
  have bounded : after.2.countedTo ≤ latest start (earlier ++ [now]) :=
    clock.countedTo_le_latest (earlier ++ [now])
  have reading : after = (before.1 ++ [(before.2.due now).1], (before.2.due now).2) :=
    clock.readAll_concat now earlier
  refine ⟨counted, ?_, bounded, ⟨(before.2.due now).1, ?_, ?_, ?_⟩, ?_, ?_⟩
  · rw [reading]
    exact Nat.le_add_right _ _
  · rw [reading]
  · exact Nat.mod_lt _ (by decide)
  · exact mul_due_le before.2 now
  · intro uncut
    have leftover : latest start (earlier ++ [now]) < after.2.countedTo + 16666666 :=
      latest_lt_countedTo uncut
    omega
  · intro forward
    have begun : before.2.countedTo = start + 16666666 * before.1.sum :=
      clock.countedTo_readAll earlier
    have ticks := due_fst before.2 now
    rw [reading, List.sum_append, List.sum_singleton, ticks]
    omega

/-- A clock that is read in the middle of a period, then at an instant before its
start, and then in the middle of a later period. -/
theorem backward_reading_counts_nothing :
    (readAll ⟨20000000⟩ [28333333, 10000000, 78333333]).1.sum = 3 ∧
      (readAll ⟨20000000⟩ [28333333, 10000000, 78333333]).2.countedTo = 69999998 := by
  have uncut : Uncut ⟨20000000⟩ [28333333, 10000000, 78333333] := by
    intro earlier now listed
    have member : now ∈ [28333333, 10000000, 78333333] :=
      listed.subset (List.mem_append_right _ (List.mem_singleton_self now))
    have early : now ≤ 78333333 := by
      simp only [List.mem_cons, List.not_mem_nil, or_false] at member
      omega
    omega
  rcases clock_neither_loses_nor_invents ⟨20000000⟩ [28333333, 10000000] 78333333 with
    ⟨counted, _, _, _, whole, _⟩
  have three : (readAll ⟨20000000⟩ [28333333, 10000000, 78333333]).1.sum = 3 := whole uncut
  refine ⟨three, counted.trans ?_⟩
  exact congrArg (fun sum => 20000000 + 16666666 * sum) three

end TimerClock
end Chip8
