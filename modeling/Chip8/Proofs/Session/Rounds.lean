import Chip8.Session.Basic
import Chip8.Proofs.Keypad.Assignment
import Chip8.Proofs.Machine.Redraw
import Chip8.Proofs.Machine.Timing

namespace Chip8

/-!
# The rounds of a session

What a session does in a round is described in two parts: the keypad becomes the
one of the frame, and what follows leaves the canvas alone and keeps account of
changes of the screen.

A property that every round keeps holds of all rounds that are shown.  This
induction is made once, in `rounds_keep`, together with the fact that a session
whose rounds all succeed goes on until Escape is down or the frames end.
-/

/-- The host keys that are down in the frame of a round.  There are none before
the first round. -/
def Host.pressed (host : Host) : Nat → List HostKey
  | 0 => []
  | k + 1 => host.frames[k]?.getD []

/-- A key is down when a host key of the frame is mapped to it. -/
def Keypad.ofFrame (frame : List HostKey) : Keypad where
  down := Vector.ofFn fun key => keymap.any fun entry => entry.2 == key && frame.contains entry.1

def Reply.isFailed : Reply → Bool
  | .failed _ => true
  | _ => false

/-- The error that a reply reports. -/
def Reply.failure? : Reply → Option Error
  | .failed failure => some failure
  | _ => none

namespace Session

/-! ## The keypad of a frame -/

/-- Every key has one host key, and no two keys share one. -/
theorem keymap_covers : ∀ key : Key, key ∈ keymap.map Prod.snd := by
  decide

theorem keymap_injective :
    ∀ entry ∈ keymap, ∀ other ∈ keymap, other.2 = entry.2 → other = entry := by
  decide

theorem ofFrame_get {entry : HostKey × Key} (mapped : entry ∈ keymap) (frame : List HostKey) :
    (Keypad.ofFrame frame).down.get entry.2 = frame.contains entry.1 := by
  change (Vector.ofFn _)[entry.2.val] = _
  rw [Vector.getElem_ofFn, Bool.eq_iff_iff, List.any_eq_true]
  constructor
  · rintro ⟨other, listed, found⟩
    rw [Bool.and_eq_true, beq_iff_eq] at found
    rw [← keymap_injective entry mapped other listed found.1]
    exact found.2
  · intro down
    exact ⟨entry, mapped, by simpa using down⟩

theorem syncKeys_eq (frame : List HostKey) (machine : Machine) :
    syncKeys frame machine = machine.withKeypad (Keypad.ofFrame frame) := by
  have all : machine.keypad.setAll (keymap.map fun entry => (entry.2, frame.contains entry.1)) =
      Keypad.ofFrame frame := by
    refine Keypad.setAll_eq ?_ ?_ _
    · intro assignment member
      rcases List.mem_map.mp member with ⟨entry, mapped, rfl⟩
      exact (ofFrame_get mapped frame).symm
    · intro key
      rw [List.map_map]
      exact keymap_covers key
  rw [← all, ← Machine.foldl_setKey, List.foldl_map]
  rfl

/-! ## A round -/

section Round

variable {settings : Settings} {noise : Noise} {periods : Nat} {previous current : List HostKey}
  {session : Session}

/-- The loop of a round runs the machine and reports what the run reports.  A failure
halts the session, is shown as its title and is the last entry of the round. -/
theorem execute_eq_run (noise : Noise) (count : Nat) (session : Session) :
    session.execute noise count =
      let entries := session.machine.runEntries noise count
      match Machine.run noise count session.machine with
      | .ok _ machine => ⟨{ session with machine }, [], entries⟩
      | .error failure machine =>
          { session := { session with machine, halted := true }
            titles := [Window.title (some ("halted: " ++ failure.message))]
            entries := entries ++ [Entry.stopped failure] } := by
  induction count generalizing session with
  | zero => rfl
  | succ count ih =>
      rw [execute, Machine.run_succ, Machine.runEntries]
      cases Machine.step noise session.machine with
      | error failure machine =>
          simp only [List.append_assoc]
          rfl
      | ok _ machine =>
          simp only [ih]
          cases Machine.run noise count machine with
          | error failure reached => simp only [List.append_assoc]
          | ok _ reached => rfl

/-- The loop of a round in terms of the operation that takes its steps. -/
theorem execute_eq (noise : Noise) (count : Nat) (session : Session) :
    session.execute noise count =
      let worked := (Operation.run count).perform noise session.machine
      { session := { session with
          machine := worked.2
          halted := session.halted || worked.1.isFailed }
        titles := worked.1.failure?.toList.map fun failure =>
          Window.title (some ("halted: " ++ failure.message))
        entries := session.machine.runEntries noise count ++
          worked.1.failure?.toList.map Entry.stopped } := by
  rw [execute_eq_run, Operation.perform]
  cases Machine.run noise count session.machine <;>
    simp [Reply.ofResult, Reply.isFailed, Reply.failure?]

/-- The steps of a round as one operation, on the keypad of the frame. -/
def work (settings : Settings) (noise : Noise) (previous current : List HostKey)
    (session : Session) : Reply × Machine :=
  let resumed :=
    { session with running := session.running != session.toggles settings previous current }
  (Operation.run (resumed.stepCount settings previous current)).perform noise
    (session.machine.withKeypad (Keypad.ofFrame current))

/-- The session after a round and before its picture, by components. -/
theorem advance_session :
    (session.advance settings noise periods previous current).session =
      let running := session.running != session.toggles settings previous current
      let worked := session.work settings noise previous current
      let halted := session.halted || worked.1.isFailed
      { machine := if running && !halted then worked.2.tickTimes periods else worked.2
        canvas := session.canvas
        running
        halted } := by
  unfold advance work
  -- Which keys are down does not matter here, and must not be computed.
  rw [← syncKeys_eq]
  generalize syncKeys current session.machine = keyed
  simp only [execute_eq]
  rfl

/-- A round changes the screen only in ways that are marked. -/
theorem advance_marks :
    session.machine.Marks (session.advance settings noise periods previous current).session.machine := by
  have keyed : session.machine.Marks (session.machine.withKeypad (Keypad.ofFrame current)) :=
    Or.inr (Machine.withKeypad_screen _ _)
  have steps : session.machine.Marks (session.work settings noise previous current).2 :=
    keyed.trans (@Operation.perform_marks (.run _) nofun noise _)
  rw [advance_session]
  dsimp only
  split
  · exact steps.trans (Or.inr (Machine.read_tickTimes Machine.screen (fun _ => rfl) _ periods))
  · exact steps

end Round

/-! ## All rounds -/

/-- The first of the frames that remain is the one of the next round. -/
theorem pressed_of_remain {host : Host} {k : Nat} {current : List HostKey}
    {later : List (List HostKey)} (remain : host.frames.drop k = current :: later) :
    host.pressed (k + 1) = current ∧ host.frames.drop (k + 1) = later := by
  have first := congrArg (·[0]?) remain
  rw [List.getElem?_drop, Nat.add_zero] at first
  refine ⟨congrArg (·.getD []) first, ?_⟩
  rw [← List.tail_drop, remain]
  rfl

/-- A round that was shown and what comes after it, unless the window cannot be updated. -/
def continued (host : Host) (number : Nat) (round : Round) (after : List Round × Ending) :
    List Round × Ending :=
  match host.updateFailure with
  | some (failing, text) =>
      if failing = number then ([round], .failed [text]) else (round :: after.1, after.2)
  | none => (round :: after.1, after.2)

theorem rounds_cons (settings : Settings) (window : Window) (host : Host) (number : Nat)
    (previous current : List HostKey) (later : List (List HostKey)) (session : Session) :
    rounds settings window host number previous (current :: later) session =
      if current.contains .escape then ([], .closed)
      else
        match present window
          (session.advance settings host.noise (host.periods number) previous current) with
        | .error fault => ([], .fault fault)
        | .ok round =>
            continued host number round
              (rounds settings window host (number + 1) current later round.session) := by
  rw [rounds]
  unfold continued
  rfl

/-- The update of the window fails in the round or it does not. -/
theorem continued_cases (host : Host) (number : Nat) (round : Round)
    (after : List Round × Ending) :
    (∃ text, host.updateFailure = some (number, text) ∧
      continued host number round after = ([round], .failed [text])) ∨
    (∀ text, host.updateFailure ≠ some (number, text)) ∧
      continued host number round after = (round :: after.1, after.2) := by
  unfold continued
  cases host.updateFailure with
  | none => exact .inr ⟨nofun, rfl⟩
  | some failure =>
      rcases failure with ⟨failing, text⟩
      by_cases now : failing = number
      · exact .inl ⟨text, by rw [now], if_pos now⟩
      · refine .inr ⟨?_, if_neg now⟩
        intro other same
        cases same
        exact now rfl

/-- A list of rounds with its ending, from round `k` on: no fault ended it, the
property holds in every round, and updates that succeed let it go on to the end. -/
structure Keeps (host : Host) (Holds : Nat → Session → Prop) (k : Nat) (frames : List (List HostKey))
    (played : List Round × Ending) : Prop where
  sound : ∀ fault, played.2 ≠ .fault fault
  held : ∀ j round, played.1[j]? = some round → Holds (k + j + 1) round.session
  finished : host.updateFailure = none →
    played.2 = .closed ∧
      played.1.length = (frames.takeWhile fun frame => !frame.contains .escape).length

variable {settings : Settings} {window : Window} {host : Host} {Holds : Nat → Session → Prop}

theorem Keeps.cons {k : Nat} {round : Round} {current : List HostKey} {later : List (List HostKey)}
    {played : List Round × Ending} (after : Keeps host Holds (k + 1) later played)
    (holds : Holds (k + 1) round.session) (stays : current.contains .escape = false) :
    Keeps host Holds k (current :: later) (round :: played.1, played.2) where
  sound := after.sound
  held := by
    intro j shown found
    cases j with
    | zero =>
        cases found
        exact holds
    | succ j =>
        rw [show k + (j + 1) + 1 = k + 1 + j + 1 by omega]
        exact after.held j shown found
  finished := by
    intro updates
    rcases after.finished updates with ⟨closed, length⟩
    refine ⟨closed, ?_⟩
    simp only [List.takeWhile_cons, stays, Bool.not_false, if_true, List.length_cons, length]

/-- By induction on the frames that remain. -/
theorem rounds_keep_from
    (step : ∀ k session, Holds k session → ∃ round,
      present window (session.advance settings host.noise (host.periods (k + 1))
        (host.pressed k) (host.pressed (k + 1))) = .ok round ∧ Holds (k + 1) round.session)
    {frames : List (List HostKey)} {k : Nat} (remain : host.frames.drop k = frames)
    {session : Session} (holds : Holds k session) :
    Keeps host Holds k frames
      (rounds settings window host (k + 1) (host.pressed k) frames session) := by
  induction frames generalizing k session with
  | nil => exact ⟨nofun, nofun, fun _ => ⟨rfl, rfl⟩⟩
  | cons current later ih =>
      rcases pressed_of_remain remain with ⟨now, rest⟩
      rcases step k session holds with ⟨round, presented, holds⟩
      have after := ih rest holds
      rw [now] at presented after
      rw [rounds_cons]
      by_cases escaped : current.contains .escape = true
      · rw [if_pos escaped]
        refine ⟨nofun, nofun, fun _ => ⟨rfl, ?_⟩⟩
        rw [List.takeWhile_cons, escaped]
        rfl
      · have stays := Bool.not_eq_true _ ▸ escaped
        rw [if_neg escaped, presented]
        rcases continued_cases host (k + 1) round (rounds settings window host (k + 1 + 1)
          current later round.session) with ⟨text, fails, stops⟩ | ⟨_, goesOn⟩
        · dsimp only
          rw [stops]
          refine ⟨nofun, ?_, fun updates => nomatch fails.symm.trans updates⟩
          intro j shown found
          cases j with
          | zero =>
              cases found
              exact holds
          | succ j => cases found
        · dsimp only
          rw [goesOn]
          exact after.cons holds stays

/-- What holds at the start and is kept by every round holds in all of them. -/
theorem rounds_keep {first : Session} (start : Holds 0 first)
    (step : ∀ k session, Holds k session → ∃ round,
      present window (session.advance settings host.noise (host.periods (k + 1))
        (host.pressed k) (host.pressed (k + 1))) = .ok round ∧ Holds (k + 1) round.session) :
    Keeps host Holds 0 host.frames (rounds settings window host 1 [] host.frames first) :=
  rounds_keep_from step rfl start

/-! ## What is shown -/

/-- The pictures among events, in order. -/
def pictures (events : List Event) : List Canvas :=
  events.filterMap fun
    | .shown picture => some picture
    | _ => none

theorem pictures_append (first later : List Event) :
    pictures (first ++ later) = pictures first ++ pictures later :=
  List.filterMap_append

theorem pictures_round (round : Round) : pictures round.events = [round.session.canvas] := by
  have untitled (titles : List String) : pictures (titles.map .titled) = [] := by
    simp [pictures]
  rw [Round.events, pictures_append, untitled]
  rfl

theorem pictures_rounds (shown : List Round) :
    pictures (shown.flatMap Round.events) = shown.map (·.session.canvas) := by
  induction shown with
  | nil => rfl
  | cons round rest ih =>
      rw [List.flatMap_cons, pictures_append, pictures_round, ih]
      rfl

end Session
end Chip8
