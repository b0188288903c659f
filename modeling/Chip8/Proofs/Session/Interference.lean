import Chip8.Proofs.Session.Schedule
import Mathlib.Data.List.Forall2

namespace Chip8

/-!
# Keys without a meaning

A session asks three things of a frame: whether Escape is down, which keys of the
keypad are down, and, with a debug panel, whether F1 and F2 went down.  Frames
with the same answers are the same to it.

After a failed step the keypad is still set in every round, but nothing reads it:
instructions are not executed any more, and neither the picture nor the titles
nor the log show it.  From then on only Escape counts.
-/

namespace Session

variable {settings : Settings} {noise : Noise}
  {previous earlier current other : List HostKey} {session : Session}

/-! ## Frames that agree -/

/-- Frames that both close the window or both leave it open. -/
def AgreeOnEscape (frame other : List HostKey) : Prop :=
  frame.contains .escape = other.contains .escape

instance (frame other : List HostKey) : Decidable (AgreeOnEscape frame other) :=
  inferInstanceAs (Decidable (_ = _))

/-- Frames that agree on every key with a meaning. -/
structure Agree (debug : Bool) (frame other : List HostKey) : Prop where
  escape : AgreeOnEscape frame other
  mapped : ∀ entry ∈ keymap, frame.contains entry.1 = other.contains entry.1
  control : debug = true →
    frame.contains .f1 = other.contains .f1 ∧ frame.contains .f2 = other.contains .f2

theorem Agree.refl (debug : Bool) (frame : List HostKey) : Agree debug frame frame :=
  ⟨rfl, fun _ _ => rfl, fun _ => ⟨rfl, rfl⟩⟩

theorem ofFrame_congr
    (mapped : ∀ entry ∈ keymap, current.contains entry.1 = other.contains entry.1) :
    Keypad.ofFrame current = Keypad.ofFrame other := by
  refine congrArg Keypad.mk (Vector.ext fun key inside => ?_)
  rcases List.mem_map.mp (keymap_covers ⟨key, inside⟩) with ⟨entry, listed, same⟩
  have asked (frame : List HostKey) := ofFrame_get listed frame
  rw [same] at asked
  exact (asked current).trans ((mapped entry listed).trans (asked other).symm)

theorem newlyDown_congr {key : HostKey} (before : previous.contains key = earlier.contains key)
    (now : current.contains key = other.contains key) :
    newlyDown key previous current = newlyDown key earlier other := by
  rw [newlyDown, newlyDown, before, now]

/-! ## One round -/

section Round

variable (before : Agree settings.debug previous earlier) (now : Agree settings.debug current other)

include before now

theorem toggles_congr (session : Session) :
    session.toggles settings previous current = session.toggles settings earlier other := by
  unfold toggles
  cases debug : settings.debug with
  | false => rw [Bool.and_false, Bool.false_and, Bool.false_and]
  | true => rw [newlyDown_congr (before.control debug).2 (now.control debug).2]

theorem stepCount_congr (session : Session) :
    session.stepCount settings previous current = session.stepCount settings earlier other := by
  unfold stepCount
  cases debug : settings.debug with
  | false => rfl
  | true => rw [newlyDown_congr (before.control debug).1 (now.control debug).1]

/-- A round does not tell frames apart that agree. -/
theorem advance_congr (session : Session) (noise : Noise) (periods : Nat) :
    session.advance settings noise periods previous current =
      session.advance settings noise periods earlier other := by
  have keyed : syncKeys current session.machine = syncKeys other session.machine := by
    rw [syncKeys_eq, syncKeys_eq, ofFrame_congr now.mapped]
  simp only [advance, keyed, toggles_congr before now, stepCount_congr before now]

end Round

/-! ## Sessions that differ in their keys -/

/-- The session with the keys of a keypad. -/
def withKeypad (keypad : Keypad) (session : Session) : Session :=
  { session with machine := session.machine.withKeypad keypad }

/-- The keys of the round before are forgotten. -/
theorem advance_withKeypad (settings : Settings) (noise : Noise) (periods : Nat)
    (previous current : List HostKey) (keypad : Keypad) (session : Session) :
    (session.withKeypad keypad).advance settings noise periods previous current =
      session.advance settings noise periods previous current := by
  have keyed : syncKeys current (session.withKeypad keypad).machine =
      syncKeys current session.machine := by
    rw [syncKeys_eq, syncKeys_eq]
    rfl
  rw [advance, advance, keyed]
  rfl

/-- A halted session takes the keys of a frame and does nothing else. -/
theorem advance_of_halted (halted : session.halted = true) (settings : Settings) (noise : Noise)
    (periods : Nat) (previous current : List HostKey) :
    session.advance settings noise periods previous current =
      ⟨session.withKeypad (Keypad.ofFrame current), [], []⟩ := by
  rcases session with ⟨machine, canvas, running, stopped⟩
  cases halted
  rw [advance, syncKeys_eq]
  -- The timers ask whether the session runs before they ask whether it is halted.
  cases running <;> rfl

/-! ## What a round shows -/

/-- The picture does not show the keypad. -/
theorem picture_withKeypad (window : Window) (machine : Machine) (canvas : Canvas)
    (keypad : Keypad) :
    window.picture (machine.withKeypad keypad) canvas = window.picture machine canvas := by
  have lines : Panel.lines (machine.withKeypad keypad) = Panel.lines machine := rfl
  unfold Window.picture
  rw [Machine.withKeypad_screen]
  apply congrArg
  funext painted
  cases window.panel with
  | none => rfl
  | some panel => exact Panel.draw_congr lines panel painted _ _

theorem present_eq (window : Window) (worked : Round) :
    present window worked =
      (window.picture worked.session.machine worked.session.canvas).map fun canvas =>
        { worked with session :=
          { worked.session with canvas, machine := worked.session.machine.unmarked } } := by
  rw [present, Window.refresh_eq]
  cases window.picture worked.session.machine worked.session.canvas <;> rfl

theorem events_withKeypad (keypad : Keypad) (session : Session) :
    Round.events ⟨session.withKeypad keypad, [], []⟩ = [.shown session.canvas] := rfl

/-- A round in which only the keypad was set shows the picture that it would show
without. -/
theorem present_withKeypad (window : Window) (session : Session) (keypad : Keypad) :
    present window ⟨session.withKeypad keypad, [], []⟩ =
      (window.picture session.machine session.canvas).map fun canvas =>
        ⟨({ session with canvas, machine := session.machine.unmarked } : Session).withKeypad keypad,
          [], []⟩ := by
  rw [present_eq, withKeypad]
  dsimp only
  rw [picture_withKeypad]
  rfl

/-- Showing the picture changes the canvas and takes the mark of the screen. -/
theorem eq_of_present {window : Window} {worked round : Round}
    (presented : present window worked = .ok round) :
    ∃ canvas, round = { worked with
      session := { worked.session with canvas, machine := worked.session.machine.unmarked } } := by
  rw [present_eq] at presented
  cases shown : window.picture worked.session.machine worked.session.canvas with
  | error fault =>
      rw [shown] at presented
      cases presented
  | ok canvas =>
      rw [shown] at presented
      cases presented
      exact ⟨canvas, rfl⟩

theorem Follows.present {schedule : Schedule} {window : Window} {worked round : Round}
    (follows : Follows noise schedule worked.session)
    (presented : Session.present window worked = .ok round) :
    Follows noise schedule round.session := by
  rcases eq_of_present presented with ⟨canvas, rfl⟩
  exact ⟨follows.machine_eq, follows.running_eq, follows.halted_eq⟩

/-! ## All rounds -/

/-- What is known of rounds outside: what is done to the window, what is reported
and how they end. -/
def told (played : List Round × Ending) : List Event × List Entry × Ending :=
  (played.1.flatMap Round.events, played.1.flatMap Round.entries, played.2)

theorem told_continued {round other : Round} {after otherAfter : List Round × Ending}
    (events : round.events = other.events) (entries : round.entries = other.entries)
    (same : told after = told otherAfter) (host : Host) (number : Nat) :
    told (continued host number round after) = told (continued host number other otherAfter) := by
  rw [told, told, Prod.mk.injEq, Prod.mk.injEq] at same
  rcases same with ⟨laterEvents, laterEntries, ending⟩
  have goOn : told (round :: after.1, after.2) = told (other :: otherAfter.1, otherAfter.2) := by
    simp only [told, List.flatMap_cons, events, entries, laterEvents, laterEntries, ending]
  unfold continued
  rcases host.updateFailure with _ | ⟨failing, text⟩
  · exact goOn
  · dsimp only
    split
    · simp only [told, List.flatMap_singleton, events, entries]
    · exact goOn

section Rounds

variable {rom : Rom} {window : Window} {host : Host}
  {early later others lates : List (List HostKey)}

theorem rounds_withKeypad (number : Nat) (previous : List HostKey) (frames : List (List HostKey))
    (keypad : Keypad) (session : Session) :
    rounds settings window host number previous frames (session.withKeypad keypad) =
      rounds settings window host number previous frames session := by
  cases frames with
  | nil => rfl
  | cons current later => rw [rounds_cons, rounds_cons, advance_withKeypad]

/-- By induction on the frames.  The sessions are the same except for their
keypads, and these are forgotten in the next round. -/
theorem told_rounds_of_halted (halted : session.halted = true)
    (agree : List.Forall₂ AgreeOnEscape later lates) (number : Nat)
    (previous earlier : List HostKey) :
    told (rounds settings window host number previous later session) =
      told (rounds settings window host number earlier lates session) := by
  induction agree generalizing session number previous earlier with
  | nil => rfl
  | @cons current other later lates escape _ ih =>
      rw [rounds_cons, rounds_cons, advance_of_halted halted, advance_of_halted halted, escape]
      split
      · rfl
      · rw [present_withKeypad, present_withKeypad]
        cases window.picture session.machine session.canvas with
        | error fault => rfl
        | ok canvas =>
            simp only [Except.map]
            apply told_continued
            · rw [events_withKeypad, events_withKeypad]
            · rfl
            · rw [rounds_withKeypad, rounds_withKeypad]
              apply ih
              exact halted

/-- By induction on the frames that agree.  What comes after them is compared for
every session that has followed the schedule until then. -/
theorem told_rounds_append (agree : List.Forall₂ (Agree settings.debug) early others) {k : Nat}
    (remain : host.frames.drop k = early ++ later)
    (before : Agree settings.debug (host.pressed k) earlier)
    (follows : Follows host.noise (Schedule.after settings rom host k) session)
    (rest : ∀ (number : Nat) (session : Session) (previous earlier : List HostKey),
      Follows host.noise (Schedule.after settings rom host (k + early.length)) session →
      told (rounds settings window host number previous later session) =
        told (rounds settings window host number earlier lates session)) :
    told (rounds settings window host (k + 1) (host.pressed k) (early ++ later) session) =
      told (rounds settings window host (k + 1) earlier (others ++ lates) session) := by
  induction agree generalizing k session earlier with
  | nil => exact rest (k + 1) session (host.pressed k) earlier follows
  | @cons current other early others now _ ih =>
      rcases pressed_of_remain remain with ⟨pressed, remain⟩
      rw [List.cons_append, List.cons_append, rounds_cons, rounds_cons, now.escape,
        advance_congr before now]
      split
      · rfl
      · cases presented : present window (session.advance settings host.noise
          (host.periods (k + 1)) earlier other) with
        | error fault => rfl
        | ok round =>
            apply told_continued rfl rfl
            rw [← pressed]
            refine ih remain (pressed.symm ▸ now) (Follows.present ?_ presented) ?_
            · rw [← advance_congr before now, ← pressed]
              exact follows.advance settings _ _ _
            · rw [Nat.add_right_comm]
              exact rest

/-- The rounds are given their frames, and the window is open by then. -/
theorem rounds_of_frames (window : Window) (host : Host) (reason : Option String) (number : Nat)
    (previous : List HostKey) (all frames : List (List HostKey)) (session : Session) :
    rounds settings window { host with frames := all, openFailure := reason } number previous frames
        session =
      rounds settings window host number previous frames session := by
  induction frames generalizing number previous session with
  | nil => rfl
  | cons current later ih =>
      rw [rounds_cons, rounds_cons]
      simp only [ih]
      rfl

theorem play_eq {canvas : Canvas} (allocated : window.blankCanvas = .ok canvas) (log : List Entry)
    (opening : List Event) (machine : Machine) :
    play settings window host log opening machine =
      let known := told (rounds settings window host 1 [] host.frames (initial machine canvas))
      ⟨opening ++ known.1, log ++ known.2.1, known.2.2⟩ := by
  rw [play, allocated]
  rfl

/-- Frames are read in rounds only. -/
theorem run_congr {frames : List (List HostKey)}
    (same : ∀ window machine canvas, Machine.load rom Machine.initial = .ok () machine →
      told (rounds settings window host 1 [] frames (initial machine canvas)) =
        told (rounds settings window host 1 [] host.frames (initial machine canvas))) :
    run settings rom { host with frames } = run settings rom host := by
  unfold run
  cases loads : Machine.load rom Machine.initial with
  | error failure reached => rfl
  | ok _ machine =>
      dsimp only
      unfold openWindow
      cases Window.layout settings.scale settings.debug with
      | error fault => rfl
      | ok window =>
          cases host.openFailure with
          | some text => rfl
          | none =>
              dsimp only
              cases allocated : window.blankCanvas with
              | error fault =>
                  rw [play, play, allocated]
              | ok canvas =>
                  rw [play_eq allocated, play_eq allocated, rounds_of_frames,
                    same window machine canvas loads]

theorem run_eq_of_agree (frames : host.frames = early ++ later)
    (agree : List.Forall₂ (Agree settings.debug) early others)
    (escapes : List.Forall₂ AgreeOnEscape later lates)
    (silent : later = [] ∨
      (Schedule.after settings rom host early.length).failed host.noise = true) :
    run settings rom { host with frames := others ++ lates } = run settings rom host := by
  apply run_congr
  intro window machine canvas loads
  rw [frames]
  refine (told_rounds_append agree (k := 0) frames (Agree.refl _ _) (follows_initial loads) ?_).symm
  intro number session previous earlier follows
  rcases silent with rfl | failed
  · cases escapes
    rfl
  · rw [Nat.zero_add] at follows
    exact told_rounds_of_halted (follows.halted_eq.trans failed) escapes number previous earlier

end Rounds

/-- **Keys without a meaning change nothing.** A session does not tell frames apart
that agree on Escape, on the mapped keys and, with a debug panel, on F1 and F2:
the same is done to the window, the same is reported, and it ends in the same way.
Once a step has failed, the frames that come later need to agree on Escape only. -/
theorem meaningless_keys_change_nothing (settings : Settings) (rom : Rom) (host : Host) :
    (∀ others : List (List HostKey),
      List.Forall₂ (Agree settings.debug) host.frames others →
      run settings rom { host with frames := others } = run settings rom host) ∧
    ∀ early later others lates : List (List HostKey),
      host.frames = early ++ later →
      (Schedule.after settings rom host early.length).failed host.noise = true →
      List.Forall₂ (Agree settings.debug) early others →
      List.Forall₂ AgreeOnEscape later lates →
      run settings rom { host with frames := others ++ lates } = run settings rom host := by
  constructor
  · intro others agree
    have same : run settings rom { host with frames := others ++ [] } = run settings rom host :=
      run_eq_of_agree (List.append_nil host.frames).symm agree .nil (.inl rfl)
    rwa [List.append_nil] at same
  · intro early later others lates frames failed agree escapes
    exact run_eq_of_agree frames agree escapes (.inr failed)

/-- The space bar means nothing, and after the failure only Escape means something. -/
theorem halted_session_ignores_keys :
    run smallSettings setAndReturn (quietHost [[.other "Space", .w], [.escape]]) =
        run smallSettings setAndReturn (quietHost [[.w], [.escape]]) ∧
      run smallSettings setAndReturn (quietHost [[.other "Space", .w], [.q], [], [.x, .escape]]) =
        run smallSettings setAndReturn (quietHost [[.w], [.f1], [.f2], [.escape]]) := by
  have space : Agree smallSettings.debug [.w] [.other "Space", .w] :=
    ⟨by decide, by decide, by decide⟩
  constructor
  · refine (meaningless_keys_change_nothing smallSettings setAndReturn
      (quietHost [[.w], [.escape]])).1 _ ?_
    exact .cons space (.cons (.refl _ _) .nil)
  · let host := quietHost [[.w], [.f1], [.f2], [.escape]]
    rcases exists_setsAndFails with ⟨loaded, reached, program⟩
    have halts :
        (Schedule.after smallSettings setAndReturn host 1).LeadsTo host.noise true true _ :=
      (program.start host).frame (by rfl) (by rfl) (program.run_loaded _ _ 9) _
    refine (meaningless_keys_change_nothing smallSettings setAndReturn host).2
      [[.w]] _ [[.other "Space", .w]] _ rfl halts.halted_eq ?_ ?_
    · exact .cons space .nil
    · exact .cons (by decide) (.cons (by decide) (.cons (by decide) .nil))

end Session
end Chip8
