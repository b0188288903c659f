import Chip8.Proofs.Session.Interference

namespace Chip8

/-!
# The stream of events

What a session does to its window can be told from the frames and the schedule.
Every round that is shown ends with a picture.  Before the picture the window gets
a new title if F2 pauses or resumes the session, and another one if a step fails.
Only the first failing step counts: the session is halted by it, and from then on
there are pictures but no titles and no errors.

Failing steps do not end a session.  It ends with Escape, with the frames, or with an
update of the window that fails.
-/

/-! ## The first error -/

def Entry.isError (entry : Entry) : Bool :=
  entry.level = .error

/-- The entries of a record at the level of errors. -/
def Record.errors (record : Record) : List Entry :=
  record.log.filter Entry.isError

theorem Reply.isFailed_eq (reply : Reply) : reply.isFailed = reply.failure?.isSome := by
  cases reply <;> rfl

namespace Operation

/-- The first error that is reported when operations are performed in order. -/
def firstFailure? (noise : Noise) (operations : List Operation) (machine : Machine) :
    Option Error :=
  (performAll noise operations machine).1.findSome? Reply.failure?

variable {noise : Noise} {operations first later : List Operation} {machine : Machine}

theorem anyFails_eq_isSome :
    anyFails noise operations machine = (firstFailure? noise operations machine).isSome := by
  unfold anyFails firstFailure?
  rw [List.isSome_findSome?]
  exact congrArg _ (funext Reply.isFailed_eq)

theorem firstFailure?_append : firstFailure? noise (first ++ later) machine =
    (firstFailure? noise first machine).or
      (firstFailure? noise later (stateAfter noise first machine)) := by
  unfold firstFailure?
  rw [performAll_append, List.findSome?_append]

theorem firstFailure?_eq_none (succeed : anyFails noise operations machine = false) :
    firstFailure? noise operations machine = none := by
  rw [anyFails_eq_isSome] at succeed
  exact Option.isNone_iff_eq_none.mp (Option.isSome_eq_false_iff.mp succeed)

end Operation

namespace Schedule

/-- The first error that the operations report. -/
def failure? (noise : Noise) (schedule : Schedule) : Option Error :=
  Operation.firstFailure? noise schedule.operations Machine.initial

variable {settings : Settings} {noise : Noise} {schedule : Schedule} {rom : Rom} {host : Host}
  {j k : Nat} {failure : Error}

theorem failed_eq_isSome : schedule.failed noise = (schedule.failure? noise).isSome :=
  Operation.anyFails_eq_isSome

theorem failure?_frame (settings : Settings) (noise : Noise) (periods : Nat)
    (previous current : List HostKey) (schedule : Schedule) :
    (schedule.frame settings noise periods previous current).failure? noise =
      (schedule.work settings noise previous current).failure? noise := by
  unfold frame
  dsimp only
  split
  · rw [failure?, Operation.firstFailure?_append,
      Operation.firstFailure?_eq_none (Operation.anyFails_replicate_tick periods), Option.or_none]
    rfl
  · rfl

/-- Setting the keys does not fail, so the first error of a frame is one of its steps. -/
theorem failure?_work (alive : schedule.failed noise = false) (settings : Settings)
    (previous current : List HostKey) :
    (schedule.work settings noise previous current).failure? noise =
      ((Operation.run (steps settings previous current
        (schedule.work settings noise previous current).running)).perform noise
          ((schedule.machine noise).withKeypad (Keypad.ofFrame current))).1.failure? := by
  have before := Operation.firstFailure?_eq_none alive
  rw [failure?, work, alive, Operation.firstFailure?_append, Operation.firstFailure?_append, before,
    Operation.firstFailure?_eq_none (Operation.anyFails_settings _), Operation.stateAfter_append,
    Operation.stateAfter_settings]
  exact List.findSome?_singleton

/-- The first error of a frame, from what is known before it. -/
theorem LeadsTo.failure?_frame {running runs : Bool} {machine worked : Machine} {reply : Reply}
    {previous current : List HostKey} {count : Nat}
    (before : schedule.LeadsTo noise running false machine)
    (flips : (running != (settings.debug && Session.newlyDown .f2 previous current)) = runs)
    (counts : steps settings previous current runs = count)
    (performs : (Operation.run count).perform noise
      (machine.withKeypad (Keypad.ofFrame current)) = (reply, worked)) (periods : Nat) :
    (schedule.frame settings noise periods previous current).failure? noise = reply.failure? := by
  rw [Schedule.failure?_frame, failure?_work before.halted_eq, before.running_work, flips, counts,
    before.machine_eq, performs]

/-! ## Halting -/

/-- The error of the first failing step, if that step is in the round after `k` rounds. -/
def halt? (settings : Settings) (rom : Rom) (host : Host) (k : Nat) : Option Error :=
  if (after settings rom host k).failed host.noise then none
  else (after settings rom host (k + 1)).failure? host.noise

theorem halt?_eq_some_iff : halt? settings rom host k = some failure ↔
    (after settings rom host k).failed host.noise = false ∧
      (after settings rom host (k + 1)).failure? host.noise = some failure := by
  rw [halt?, Option.ite_none_left_eq_some, Bool.not_eq_true]

/-- Nothing fails for the first time after something has failed. -/
theorem failed_of_halt? (halts : halt? settings rom host k = some failure) (later : k < j) :
    (after settings rom host j).failed host.noise = true := by
  have failed : (after settings rom host (k + 1)).failed host.noise = true := by
    rw [failed_eq_isSome, (halt?_eq_some_iff.mp halts).2]
    rfl
  rcases Nat.exists_eq_add_of_le later with ⟨further, rfl⟩
  exact (after_of_failed failed further).1

/-- A session halts at most once. -/
theorem halt?_eq_none_of_ne (halts : halt? settings rom host k = some failure) (other : j ≠ k) :
    halt? settings rom host j = none := by
  cases found : halt? settings rom host j with
  | none => rfl
  | some second =>
      rcases Nat.lt_or_gt_of_ne other with before | after
      · cases (failed_of_halt? found before).symm.trans (halt?_eq_some_iff.mp halts).1
      · cases (failed_of_halt? halts after).symm.trans (halt?_eq_some_iff.mp found).1

/-! ## Pausing -/

/-- The number of times that F2 goes down in the first `k` frames. -/
def presses (host : Host) (k : Nat) : Nat :=
  (List.range k).countP fun j => Session.newlyDown .f2 (host.pressed j) (host.pressed (j + 1))

/-- Each press changes whether their number is odd. -/
theorem odd_presses_succ (host : Host) (k : Nat) :
    (presses host (k + 1) % 2 == 1) =
      ((presses host k % 2 == 1) != Session.newlyDown .f2 (host.pressed k) (host.pressed (k + 1))) := by
  rw [presses, List.range_succ, List.countP_append, List.countP_singleton, ← presses]
  cases Session.newlyDown .f2 (host.pressed k) (host.pressed (k + 1)) with
  | false => exact (Bool.bne_false _).symm
  | true =>
      rw [if_pos rfl, Bool.bne_true, Bool.eq_iff_iff, Bool.not_eq_true', beq_eq_false_iff_ne,
        beq_iff_eq]
      omega

/-- Whether F2 pauses or resumes in the round after `k` rounds. -/
def flips (settings : Settings) (rom : Rom) (host : Host) (k : Nat) : Bool :=
  settings.debug && !(after settings rom host k).failed host.noise &&
    Session.newlyDown .f2 (host.pressed k) (host.pressed (k + 1))

theorem alive_of_alive_succ (alive : (after settings rom host (k + 1)).failed host.noise = false) :
    (after settings rom host k).failed host.noise = false := by
  cases failed : (after settings rom host k).failed host.noise with
  | false => rfl
  | true => cases (after_of_failed failed 1).1.symm.trans alive

/-- Until something fails, the presses of F2 alone decide whether the session runs. -/
theorem running_after (alive : (after settings rom host k).failed host.noise = false) :
    (after settings rom host k).running = !(settings.debug && presses host k % 2 == 1) := by
  induction k with
  | zero => cases settings.debug <;> rfl
  | succ k ih =>
      have before := alive_of_alive_succ alive
      rw [after, running_frame, work]
      dsimp only
      rw [ih before, before, odd_presses_succ]
      cases settings.debug <;> cases presses host k % 2 == 1 <;>
        cases Session.newlyDown .f2 (host.pressed k) (host.pressed (k + 1)) <;> rfl

/-- The presses that pause are the odd ones. -/
theorem running_of_flips (pressed : flips settings rom host k = true) :
    (after settings rom host k).running = (presses host (k + 1) % 2 == 1) := by
  simp only [flips, Bool.and_eq_true, Bool.not_eq_true'] at pressed
  rcases pressed with ⟨⟨debug, alive⟩, down⟩
  rw [running_after alive, odd_presses_succ, debug, down]
  exact (Bool.bne_true _).symm

end Schedule

namespace Session

variable {settings : Settings} {noise : Noise} {schedule : Schedule} {session : Session}

/-! ## What one round reports -/

/-- The title of a session that has halted. -/
def haltTitle (failure : Error) : String :=
  "yac8 - ESC to exit [halted: " ++ failure.message ++ "]"

/-- The title of a session that pauses after an odd number of presses and resumes
after an even one. -/
def pauseTitle (presses : Nat) : String :=
  if presses % 2 = 1 then "yac8 - ESC to exit [paused]" else "yac8 - ESC to exit"

/-- The titles that the schedule gives the window in the round after `k` rounds. -/
def titles (settings : Settings) (rom : Rom) (host : Host) (k : Nat) : List String :=
  (if Schedule.flips settings rom host k then [pauseTitle (Schedule.presses host (k + 1))] else []) ++
    (Schedule.halt? settings rom host k).toList.map haltTitle

theorem title_paused (presses : Nat) :
    Window.title (if presses % 2 = 1 then some "paused" else none) = pauseTitle presses := by
  unfold pauseTitle
  split <;> rfl

theorem title_halted (failure : Error) :
    Window.title (some ("halted: " ++ failure.message)) = haltTitle failure := by
  have joined : "yac8 - ESC to exit [" ++ "halted: " = "yac8 - ESC to exit [halted: " := rfl
  unfold Window.title haltTitle
  dsimp only
  rw [← String.append_assoc, joined]

/-- What the steps of a run report is no error yet. -/
theorem errors_runEntries (noise : Noise) (count : Nat) (machine : Machine) :
    (machine.runEntries noise count).filter Entry.isError = [] := by
  have announced (machine : Machine) : machine.announcement.filter Entry.isError = [] := by
    unfold Machine.announcement
    split <;> rfl
  induction count generalizing machine with
  | zero => rfl
  | succ count ih =>
      rw [Machine.runEntries, List.filter_append, announced, List.nil_append]
      cases Machine.step noise machine with
      | error failure reached => rfl
      | ok _ next => exact ih next

/-- The titles and the errors of a round follow from F2 and from the reply to the steps. -/
theorem advance_reports (settings : Settings) (noise : Noise) (periods : Nat)
    (previous current : List HostKey) (session : Session) :
    let toggled := session.toggles settings previous current
    let failure? := (session.work settings noise previous current).1.failure?
    let worked := session.advance settings noise periods previous current
    worked.titles =
        (if toggled then
          [Window.title (if session.running != toggled then none else some "paused")] else []) ++
          failure?.toList.map haltTitle ∧
      worked.entries.filter Entry.isError = failure?.toList.map Entry.stopped := by
  unfold advance work
  rw [← syncKeys_eq]
  generalize syncKeys current session.machine = keyed
  have toggles (machine : Machine) :
      ({ session with machine } : Session).toggles settings previous current =
        session.toggles settings previous current := rfl
  have steps (machine : Machine) (running : Bool) :
      ({ session with machine, running } : Session).stepCount settings previous current =
        ({ session with running } : Session).stepCount settings previous current := rfl
  simp only [execute_eq, toggles, steps, title_halted, List.filter_append, errors_runEntries,
    List.nil_append, true_and]
  generalize Reply.failure? _ = failure?
  cases failure? <;> rfl

/-- The steps of a session fail as those of the schedule that it follows. -/
theorem Follows.failure (follows : Follows noise schedule session) (settings : Settings)
    (periods : Nat) (previous current : List HostKey) :
    (session.work settings noise previous current).1.failure? =
      if schedule.failed noise then none
      else (schedule.frame settings noise periods previous current).failure? noise := by
  cases failed : schedule.failed noise with
  | true =>
      rw [follows.work_of_failed failed]
      rfl
  | false =>
      rw [if_neg Bool.false_ne_true, Schedule.failure?_frame, Schedule.failure?_work failed]
      exact congrArg Reply.failure? (follows.perform failed settings previous current).1

variable {rom : Rom} {host : Host} {k : Nat}

/-- A session that has followed the schedule gives the window its titles, and reports
its errors. -/
theorem Follows.reports (follows : Follows host.noise (Schedule.after settings rom host k) session) :
    let worked := session.advance settings host.noise (host.periods (k + 1)) (host.pressed k)
      (host.pressed (k + 1))
    worked.titles = titles settings rom host k ∧
      worked.entries.filter Entry.isError =
        (Schedule.halt? settings rom host k).toList.map Entry.stopped := by
  have reports := advance_reports settings host.noise (host.periods (k + 1)) (host.pressed k)
    (host.pressed (k + 1)) session
  have failure := follows.failure settings (host.periods (k + 1)) (host.pressed k)
    (host.pressed (k + 1))
  have toggles : session.toggles settings (host.pressed k) (host.pressed (k + 1)) =
      Schedule.flips settings rom host k := by
    rw [Session.toggles, follows.halted_eq, Bool.and_comm (!_)]
    rfl
  dsimp only at reports ⊢
  rw [reports.1, reports.2, failure, toggles, titles]
  refine ⟨congrArg (· ++ _) ?_, rfl⟩
  cases flips : Schedule.flips settings rom host k with
  | false => rfl
  | true =>
      rw [if_pos rfl, if_pos rfl, ← title_paused, follows.running_eq,
        Schedule.running_of_flips flips]
      by_cases odd : Schedule.presses host (k + 1) % 2 = 1 <;> simp [odd]

/-! ## All rounds -/

/-- The number of frames before the first one with Escape. -/
def framesBeforeEscape (frames : List (List HostKey)) : Nat :=
  (frames.takeWhile fun frame => !frame.contains .escape).length

/-- The number of rounds that are shown from round `k` on, and how they end.  They go
on until Escape is down or the frames end, unless an update of the window fails before. -/
def course (host : Host) (k : Nat) (frames : List (List HostKey)) : Nat × Ending :=
  let count := framesBeforeEscape frames
  match host.updateFailure with
  | some (failing, text) =>
      if k < failing ∧ failing ≤ k + count then (failing - k, .failed [text])
      else (count, .closed)
  | none => (count, .closed)

/-- What is done to the window in the rounds from round `k` on that show these pictures. -/
def stream (settings : Settings) (rom : Rom) (host : Host) (k : Nat) (shown : List Canvas) :
    List Event :=
  (shown.zipIdx k).flatMap fun (picture, j) =>
    (titles settings rom host j).map .titled ++ [.shown picture]

/-- Rounds that are shown from round `k` on, as they are seen in the window and in the log. -/
structure Reports (settings : Settings) (rom : Rom) (host : Host) (k : Nat)
    (shown : List Round) : Prop where
  events : shown.flatMap Round.events = stream settings rom host k (shown.map (·.session.canvas))
  errors : (shown.flatMap Round.entries).filter Entry.isError =
    ((List.range' k shown.length).filterMap (Schedule.halt? settings rom host)).map Entry.stopped

theorem reports_nil : Reports settings rom host k [] := ⟨rfl, rfl⟩

theorem Reports.cons {round : Round} {later : List Round}
    (after : Reports settings rom host (k + 1) later)
    (titled : round.titles = titles settings rom host k)
    (reported : round.entries.filter Entry.isError =
      (Schedule.halt? settings rom host k).toList.map Entry.stopped) :
    Reports settings rom host k (round :: later) where
  events := by
    rw [List.flatMap_cons, after.events, Round.events, titled]
    rfl
  errors := by
    rw [List.flatMap_cons, List.filter_append, after.errors, reported, List.length_cons,
      List.range'_succ, List.filterMap_cons]
    cases Schedule.halt? settings rom host k <;> rfl

/-- By induction on the frames that remain. -/
theorem rounds_report {frames : List (List HostKey)} (remain : host.frames.drop k = frames)
    (follows : Follows host.noise (Schedule.after settings rom host k) session) (window : Window) :
    Reports settings rom host k
      (rounds settings window host (k + 1) (host.pressed k) frames session).1 := by
  induction frames generalizing k session with
  | nil => exact reports_nil
  | cons current later ih =>
      rcases pressed_of_remain remain with ⟨now, rest⟩
      have worked := follows.advance settings (host.periods (k + 1)) (host.pressed k)
        (host.pressed (k + 1))
      have reports := follows.reports
      dsimp only at reports
      rw [rounds_cons]
      split
      · exact reports_nil
      · rw [← now]
        cases presented : present window (session.advance settings host.noise
          (host.periods (k + 1)) (host.pressed k) (host.pressed (k + 1))) with
        | error fault => exact reports_nil
        | ok round =>
            have after := ih rest (worked.present presented)
            rcases eq_of_present presented with ⟨canvas, rfl⟩
            dsimp only
            rcases continued_cases host (k + 1) _ _ with ⟨text, _, stops⟩ | ⟨_, goesOn⟩
            · rw [stops]
              exact reports_nil.cons reports.1 reports.2
            · rw [goesOn]
              exact after.cons reports.1 reports.2

theorem framesBeforeEscape_of_escape {current : List HostKey}
    (escaped : current.contains .escape = true) (later : List (List HostKey)) :
    framesBeforeEscape (current :: later) = 0 := by
  rw [framesBeforeEscape, List.takeWhile_cons, escaped]
  rfl

theorem framesBeforeEscape_cons {current : List HostKey}
    (stays : current.contains .escape = false) (later : List (List HostKey)) :
    framesBeforeEscape (current :: later) = framesBeforeEscape later + 1 := by
  rw [framesBeforeEscape, List.takeWhile_cons, stays]
  rfl

theorem course_of_closed {frames : List (List HostKey)} (closed : framesBeforeEscape frames = 0)
    (host : Host) (k : Nat) : course host k frames = (0, .closed) := by
  unfold course
  rw [closed]
  split
  · exact if_neg fun within => absurd within.1 (Nat.not_lt.mpr within.2)
  · rfl

theorem course_of_failing {current : List HostKey} {text : String}
    (stays : current.contains .escape = false) (fails : host.updateFailure = some (k + 1, text))
    (later : List (List HostKey)) :
    course host k (current :: later) = (1, .failed [text]) := by
  unfold course
  rw [fails, framesBeforeEscape_cons stays]
  dsimp only
  rw [if_pos (by omega), Nat.add_sub_cancel_left]

theorem course_cons {current : List HostKey} (stays : current.contains .escape = false)
    (updates : ∀ text, host.updateFailure ≠ some (k + 1, text)) (later : List (List HostKey)) :
    course host k (current :: later) =
      ((course host (k + 1) later).1 + 1, (course host (k + 1) later).2) := by
  unfold course
  rw [framesBeforeEscape_cons stays]
  cases fails : host.updateFailure with
  | none => rfl
  | some failure =>
      rcases failure with ⟨failing, text⟩
      have other : failing ≠ k + 1 := fun same => updates text (same ▸ fails)
      dsimp only
      by_cases within : k + 1 < failing ∧ failing ≤ k + 1 + framesBeforeEscape later
      · rw [if_pos within, if_pos (by omega), Prod.mk.injEq]
        exact ⟨by omega, rfl⟩
      · rw [if_neg within, if_neg (by omega)]

/-- By induction on the frames: nothing but a fault ends the rounds in another way. -/
theorem rounds_course {window : Window} {previous : List HostKey} {frames : List (List HostKey)}
    (sound : ∀ fault, (rounds settings window host (k + 1) previous frames session).2 ≠ .fault fault) :
    let played := rounds settings window host (k + 1) previous frames session
    (played.1.length, played.2) = course host k frames := by
  induction frames generalizing k previous session with
  | nil => exact (course_of_closed rfl host k).symm
  | cons current later ih =>
      rw [rounds_cons] at sound ⊢
      by_cases escaped : current.contains .escape = true
      · rw [if_pos escaped]
        exact (course_of_closed (framesBeforeEscape_of_escape escaped later) host k).symm
      · have stays := Bool.not_eq_true _ ▸ escaped
        rw [if_neg escaped] at sound ⊢
        cases presented : present window (session.advance settings host.noise
          (host.periods (k + 1)) previous current) with
        | error fault =>
            rw [presented] at sound
            exact absurd rfl (sound fault)
        | ok round =>
            rw [presented] at sound
            dsimp only at sound ⊢
            rcases continued_cases host (k + 1) round (rounds settings window host (k + 1 + 1)
              current later round.session) with ⟨text, fails, stops⟩ | ⟨updates, goesOn⟩
            · rw [stops, course_of_failing stays fails]
              rfl
            · rw [goesOn] at sound ⊢
              rw [course_cons stays updates, ← ih sound]
              rfl

/-- Once a step has failed, the title stays. -/
theorem titles_after_halt {failure : Error} {j : Nat}
    (halts : Schedule.halt? settings rom host k = some failure) (later : k < j) :
    titles settings rom host j = [] := by
  have failed := Schedule.failed_of_halt? halts later
  rw [titles, Schedule.halt?_eq_none_of_ne halts (Nat.ne_of_gt later), Schedule.flips, failed,
    Bool.not_true, Bool.and_false, Bool.false_and]
  rfl

/-! ## The whole session -/

theorem errors_loadEntries (rom : Rom) (machine : Machine) :
    (machine.loadEntries rom).filter Entry.isError = [] := by
  unfold Machine.loadEntries
  cases Machine.load rom machine <;> rfl

theorem filterMap_range_of_unique {β : Type} {f : Nat → Option β} {value : β} {k count : Nat}
    (found : f k = some value) (others : ∀ j, j ≠ k → f j = none) (inside : k < count) :
    (List.range count).filterMap f = [value] := by
  induction count with
  | zero => cases inside
  | succ count ih =>
      rw [List.range_succ, List.filterMap_append]
      by_cases last : k = count
      · have none_before : (List.range count).filterMap f = [] := by
          rw [List.filterMap_eq_nil_iff]
          intro j member
          exact others j (by have := List.mem_range.mp member; omega)
        rw [none_before, ← last, List.filterMap_cons, found]
        rfl
      · rw [ih (by omega), List.filterMap_cons, others count (Ne.symm last)]
        rfl

/-- What is known of a session that has loaded its program and opened its window. -/
theorem run_reports {window : Window} {canvas : Canvas} {machine : Machine}
    (loads : Machine.load rom Machine.initial = .ok () machine)
    (laid : Window.layout settings.scale settings.debug = .ok window)
    (allocated : window.blankCanvas = .ok canvas) (opens : host.openFailure = none) :
    let shown := shownRounds settings window host machine canvas
    (run settings rom host).events =
        [.opened "yac8 - ESC to exit" window.width window.height, .frameTime Window.frameTime] ++
          stream settings rom host 0 (shown.map (·.session.canvas)) ∧
      (shown.length, (run settings rom host).ending) = course host 0 host.frames ∧
      (run settings rom host).errors =
        ((List.range shown.length).filterMap (Schedule.halt? settings rom host)).map
          Entry.stopped := by
  have follows := @follows_initial settings rom host machine canvas loads
  have reports := rounds_report (k := 0) rfl follows window
  have keeps := @rounds_follow settings rom host machine window canvas loads laid allocated
  rw [run_eq loads laid allocated, opens]
  dsimp only
  refine ⟨congrArg _ reports.events, rounds_course keeps.sound, ?_⟩
  rw [Record.errors, List.filter_append, errors_loadEntries, List.nil_append, List.range_eq_range']
  exact reports.errors

/-- **The window sees titles and pictures.** A program that is too large opens no window,
and a window that does not open is all there is.  Otherwise a session shows a picture
for each frame before the first one with Escape, or up to the first update that fails,
whether or not its steps fail.  The titles before a picture are those of the schedule:
F2 pauses and resumes in turn until a step fails, and this step alone is shown as a title
and reported as an error. -/
theorem window_sees_titles_and_pictures (settings : Settings) (rom : Rom) (host : Host)
    {window : Window} {canvas : Canvas}
    (laid : Window.layout settings.scale settings.debug = .ok window)
    (allocated : window.blankCanvas = .ok canvas) :
    let record := run settings rom host
    let opened := Event.opened "yac8 - ESC to exit" window.width window.height
    (Memory.romLimit < rom.size →
      record.events = [] ∧
      record.ending = .failed [(Error.romTooLarge rom.size Memory.romLimit).message]) ∧
    (rom.size ≤ Memory.romLimit → ∀ text, host.openFailure = some text →
      record.events = [opened] ∧ record.ending = .failed ["could not open a window", text]) ∧
    (rom.size ≤ Memory.romLimit → host.openFailure = none → ∃ shown : List Canvas,
      record.events = [opened, .frameTime Window.frameTime] ++ stream settings rom host 0 shown ∧
      (shown.length, record.ending) = course host 0 host.frames ∧
      (∀ k failure, k < shown.length → Schedule.halt? settings rom host k = some failure →
        record.errors = [Entry.stopped failure]) ∧
      ((∀ k < shown.length, Schedule.halt? settings rom host k = none) → record.errors = [])) ∧
    ∀ k failure, Schedule.halt? settings rom host k = some failure →
      ∀ j, k < j → titles settings rom host j = [] := by
  intro record opened
  refine ⟨?_, ?_, ?_, fun k failure halts j later => titles_after_halt halts later⟩
  · intro large
    have refused : Memory.initial.load rom = .error (.romTooLarge rom.size Memory.romLimit) :=
      if_neg (Nat.not_le.mpr large)
    simp only [record, run, Machine.load_run, refused, and_self]
  · intro fits text fails
    rcases exists_loaded fits with ⟨machine, loads⟩
    simp only [record, opened, run_eq loads laid allocated, fails, and_true]
    rfl
  · intro fits opens
    rcases exists_loaded fits with ⟨machine, loads⟩
    rcases run_reports loads laid allocated opens with ⟨events, ends, errors⟩
    refine ⟨_, events, by rwa [List.length_map], ?_, ?_⟩
    · intro k failure inside halts
      rw [List.length_map] at inside
      refine errors.trans ?_
      rw [filterMap_range_of_unique halts
        (fun j other => Schedule.halt?_eq_none_of_ne halts other) inside]
      rfl
    · intro silent
      rw [List.length_map] at silent
      refine errors.trans ?_
      rw [List.filterMap_eq_nil_iff.mpr fun k member => silent k (List.mem_range.mp member)]
      rfl

/-- F2 pauses a session and resumes it, and each time the window gets a title.  It runs into
the failing step in the round in which it is resumed, so the title of the halt comes after
the plain one.  The last F2 has no title. -/
theorem paused_session_shows_its_titles :
    ∃ (record : Record) (first second third fourth fifth : Canvas),
      run smallSettings setAndReturn pausedHost = record ∧
      record.events = [.opened "yac8 - ESC to exit" 128 32, .frameTime 16600,
        .titled "yac8 - ESC to exit [paused]", .shown first, .shown second,
        .titled "yac8 - ESC to exit",
        .titled "yac8 - ESC to exit [halted: stack underflow: return with an empty call stack]",
        .shown third, .shown fourth, .shown fifth] ∧
      record.ending = .closed ∧
      record.errors =
        [⟨.error, "emulation stopped: stack underflow: return with an empty call stack"⟩] := by
  rcases exists_setsAndFails with ⟨loaded, reached, program⟩
  rcases program.schedule_paused with ⟨paused, stepped, halted⟩
  have halts : Schedule.halt? smallSettings setAndReturn pausedHost 2 = some .stackUnderflow :=
    Schedule.halt?_eq_some_iff.mpr ⟨stepped.halted_eq,
      stepped.failure?_frame (by rfl) (by rfl) (program.run_reached _ _ 10) _⟩
  have others (j : Nat) (other : j ≠ 2) := Schedule.halt?_eq_none_of_ne halts other
  have pauses : titles smallSettings setAndReturn pausedHost 0 =
      ["yac8 - ESC to exit [paused]"] := by
    rw [titles, others 0 (by decide), Schedule.flips, (program.start pausedHost).halted_eq]
    rfl
  have steps : titles smallSettings setAndReturn pausedHost 1 = [] := by
    rw [titles, others 1 (by decide), Schedule.flips, paused.halted_eq]
    rfl
  have resumes : titles smallSettings setAndReturn pausedHost 2 =
      ["yac8 - ESC to exit",
        "yac8 - ESC to exit [halted: stack underflow: return with an empty call stack]"] := by
    rw [titles, halts, Schedule.flips, stepped.halted_eq]
    rfl
  rcases window_sees_titles_and_pictures smallSettings setAndReturn pausedHost layout_small
    blankCanvas_small with ⟨_, _, opens, silent⟩
  rcases opens (by decide) rfl with ⟨shown, events, ends, errors, _⟩
  have course_eq : course pausedHost 0 pausedHost.frames = (5, .closed) := by decide
  rw [course_eq, Prod.mk.injEq] at ends
  have reported := errors 2 _ (ends.1 ▸ by decide) halts
  match shown, ends.1 with
  | [first, second, third, fourth, fifth], _ =>
      refine ⟨_, first, second, third, fourth, fifth, rfl, events.trans ?_, ends.2, reported⟩
      simp only [stream, List.zipIdx_cons, List.zipIdx_nil, List.flatMap_cons, List.flatMap_nil,
        Nat.zero_add, Nat.reduceAdd, pauses, steps, resumes, silent 2 _ halts 3 (by decide),
        silent 2 _ halts 4 (by decide)]
      rfl

end Session
end Chip8
