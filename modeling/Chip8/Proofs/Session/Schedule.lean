import Chip8.Proofs.Session.Picture

namespace Chip8

/-!
# The schedule of a session

What a session does to its machine is a list of operations, and the list can be
told from the frames and the timer periods alone, except that it depends on
whether an operation has failed.  The schedule is this list: the keys of the
frame are set, then instructions are executed, then timer periods pass, with the
steps and the periods left out once an operation has failed.

A session follows its schedule up to the redraw mark, which it takes for itself.
-/

namespace Operation

/-- Whether one of the operations fails when they are performed in order. -/
def anyFails (noise : Noise) (operations : List Operation) (machine : Machine) : Bool :=
  (performAll noise operations machine).1.any Reply.isFailed

variable {noise : Noise} {operations first later : List Operation} {machine : Machine}

theorem anyFails_append : anyFails noise (first ++ later) machine =
    (anyFails noise first machine || anyFails noise later (stateAfter noise first machine)) := by
  unfold anyFails
  rw [performAll_append, List.any_append]

/-- Operations that never fail do not fail in a list either. -/
theorem anyFails_eq_false
    (succeed : ∀ operation ∈ operations, ∀ machine, (operation.perform noise machine).1.isFailed = false) :
    anyFails noise operations machine = false := by
  induction operations generalizing machine with
  | nil => rfl
  | cons operation rest ih =>
      unfold anyFails
      rw [performAll, List.any_cons, succeed operation (.head _), Bool.false_or]
      exact ih fun later member => succeed later (.tail _ member)

theorem anyFails_settings (keypad : Keypad) : anyFails noise keypad.settings machine = false := by
  refine anyFails_eq_false ?_
  intro operation member machine
  rcases List.mem_map.mp member with ⟨key, _, rfl⟩
  rfl

theorem anyFails_replicate_tick (count : Nat) :
    anyFails noise (List.replicate count .tick) machine = false := by
  refine anyFails_eq_false ?_
  intro operation member machine
  rw [List.eq_of_mem_replicate member]
  rfl

end Operation

/-! ## Schedules -/

/-- The operations on a new machine so far, and whether the session is running. -/
structure Schedule where
  operations : List Operation
  running : Bool

namespace Schedule

/-- The machine after the operations. -/
def machine (noise : Noise) (schedule : Schedule) : Machine :=
  Operation.stateAfter noise schedule.operations Machine.initial

/-- One of the operations has failed. -/
def failed (noise : Noise) (schedule : Schedule) : Bool :=
  Operation.anyFails noise schedule.operations Machine.initial

/-- The number of steps of a frame.  A paused session takes one when F1 goes down
and there is a debug panel. -/
def steps (settings : Settings) (previous current : List HostKey) (running : Bool) : Nat :=
  if running then settings.stepsPerFrame
  else if settings.debug && Session.newlyDown .f1 previous current then 1
  else 0

/-- The keys and the steps of a frame.  F2 pauses and resumes before the steps,
with a debug panel and until an operation fails. -/
def work (settings : Settings) (noise : Noise) (previous current : List HostKey)
    (schedule : Schedule) : Schedule :=
  let failed := schedule.failed noise
  let flips := settings.debug && !failed && Session.newlyDown .f2 previous current
  let running := schedule.running != flips
  { operations := schedule.operations ++ (Keypad.ofFrame current).settings ++
      if failed then [] else [.run (steps settings previous current running)]
    running }

/-- A whole frame.  The timer periods pass if the session is running and no
operation has failed, the steps of this frame included. -/
def frame (settings : Settings) (noise : Noise) (periods : Nat) (previous current : List HostKey)
    (schedule : Schedule) : Schedule :=
  let worked := schedule.work settings noise previous current
  if worked.running && !worked.failed noise then
    { worked with operations := worked.operations ++ List.replicate periods .tick }
  else worked

/-- The schedule of a number of frames, from loading the program on. -/
def after (settings : Settings) (rom : Rom) (host : Host) : Nat → Schedule
  | 0 => { operations := [.load rom], running := true }
  | k + 1 =>
      (after settings rom host k).frame settings host.noise (host.periods (k + 1))
        (host.pressed k) (host.pressed (k + 1))

/-! ## One frame -/

section Frame

variable (settings : Settings) (noise : Noise) (periods : Nat) (previous current : List HostKey)
  (schedule : Schedule)

/-- What the keys and the steps of a frame come to, from the machine before it. -/
theorem machine_work :
    (schedule.work settings noise previous current).machine noise =
      let worked := schedule.work settings noise previous current
      let keyed := (schedule.machine noise).withKeypad (Keypad.ofFrame current)
      if schedule.failed noise then keyed
      else ((Operation.run (steps settings previous current worked.running)).perform noise keyed).2 := by
  unfold machine
  rw [work, Operation.stateAfter_append, Operation.stateAfter_append, Operation.stateAfter_settings]
  dsimp only
  split <;> rfl

theorem failed_work :
    (schedule.work settings noise previous current).failed noise =
      let worked := schedule.work settings noise previous current
      let keyed := (schedule.machine noise).withKeypad (Keypad.ofFrame current)
      (schedule.failed noise ||
        ((Operation.run (steps settings previous current worked.running)).perform noise
          keyed).1.isFailed) := by
  dsimp only
  rw [failed, work]
  dsimp only
  rw [Operation.anyFails_append, Operation.anyFails_append, Operation.anyFails_settings,
    Bool.or_false, Operation.stateAfter_append, Operation.stateAfter_settings]
  cases before : schedule.failed noise with
  | true =>
      have earlier : Operation.anyFails noise schedule.operations Machine.initial = true := before
      rw [earlier, Bool.true_or, Bool.true_or]
  | false =>
      have earlier : Operation.anyFails noise schedule.operations Machine.initial = false := before
      rw [earlier, Bool.false_or, Bool.false_or]
      exact Bool.or_false _

theorem failed_frame :
    (schedule.frame settings noise periods previous current).failed noise =
      (schedule.work settings noise previous current).failed noise := by
  unfold frame
  dsimp only
  split
  · rw [failed, Operation.anyFails_append, Operation.anyFails_replicate_tick, Bool.or_false]
    rfl
  · rfl

theorem machine_frame :
    (schedule.frame settings noise periods previous current).machine noise =
      let worked := schedule.work settings noise previous current
      if worked.running && !worked.failed noise then (worked.machine noise).tickTimes periods
      else worked.machine noise := by
  unfold frame
  dsimp only
  split
  · rw [machine, Operation.stateAfter_append, Operation.stateAfter_replicate_tick]
    rfl
  · rfl

theorem running_frame :
    (schedule.frame settings noise periods previous current).running =
      (schedule.work settings noise previous current).running := by
  unfold frame
  dsimp only
  split <;> rfl

end Frame

/-! ## Before and after a failure -/

variable {settings : Settings} {noise : Noise} {schedule : Schedule}

/-- Whether the session is running and halted after its schedule, and with which machine. -/
structure LeadsTo (noise : Noise) (schedule : Schedule) (running halted : Bool)
    (machine : Machine) : Prop where
  running_eq : schedule.running = running
  halted_eq : schedule.failed noise = halted
  machine_eq : schedule.machine noise = machine

variable {running : Bool} {machine : Machine}

/-- After the keys and the steps of a frame, the timer periods pass if the session is running
and not halted. -/
theorem LeadsTo.ticks {settings : Settings} {previous current : List HostKey} {halted : Bool}
    (worked : (schedule.work settings noise previous current).LeadsTo noise running halted machine)
    (periods : Nat) :
    (schedule.frame settings noise periods previous current).LeadsTo noise running halted
      (if running && !halted then machine.tickTimes periods else machine) where
  running_eq := (running_frame _ _ _ _ _ _).trans worked.running_eq
  halted_eq := (failed_frame _ _ _ _ _ _).trans worked.halted_eq
  machine_eq := by
    rw [machine_frame]
    dsimp only
    rw [worked.running_eq, worked.halted_eq, worked.machine_eq]

/-- Until an operation fails, F2 alone decides whether the session runs. -/
theorem LeadsTo.running_work (before : schedule.LeadsTo noise running false machine)
    (settings : Settings) (previous current : List HostKey) :
    (schedule.work settings noise previous current).running =
      (running != (settings.debug && Session.newlyDown .f2 previous current)) := by
  rw [work, before.halted_eq, before.running_eq, Bool.not_false, Bool.and_true]

/-- Until an operation fails, a frame decides whether the session runs and takes the steps
that follow from it. -/
theorem LeadsTo.frame (before : schedule.LeadsTo noise running false machine)
    {settings : Settings} {previous current : List HostKey} {runs : Bool} {count : Nat}
    {reply : Reply} {worked : Machine}
    (flips : (running != (settings.debug && Session.newlyDown .f2 previous current)) = runs)
    (counts : steps settings previous current runs = count)
    (performs : (Operation.run count).perform noise
      (machine.withKeypad (Keypad.ofFrame current)) = (reply, worked)) (periods : Nat) :
    (schedule.frame settings noise periods previous current).LeadsTo noise runs reply.isFailed
      (if runs && !reply.isFailed then worked.tickTimes periods else worked) := by
  have decides := (before.running_work settings previous current).trans flips
  apply LeadsTo.ticks
  refine ⟨decides, ?_, ?_⟩
  · rw [failed_work]
    dsimp only
    rw [before.halted_eq, Bool.false_or, decides, counts, before.machine_eq, performs]
  · rw [machine_work]
    dsimp only
    rw [before.halted_eq, if_neg Bool.false_ne_true, decides, counts, before.machine_eq, performs]

/-- After a failure a frame sets the keys and does nothing else. -/
theorem LeadsTo.frame_of_halted (before : schedule.LeadsTo noise running true machine)
    (settings : Settings) (periods : Nat) (previous current : List HostKey) :
    (schedule.frame settings noise periods previous current).LeadsTo noise running true
      (machine.withKeypad (Keypad.ofFrame current)) := by
  have worked : (schedule.work settings noise previous current).LeadsTo noise running true
      (machine.withKeypad (Keypad.ofFrame current)) := by
    refine ⟨?_, ?_, ?_⟩
    · rw [work, before.halted_eq, before.running_eq, Bool.not_true, Bool.and_false,
        Bool.false_and, Bool.bne_false]
    · rw [failed_work, before.halted_eq]
      rfl
    · rw [machine_work]
      dsimp only
      rw [before.halted_eq, if_pos rfl, before.machine_eq]
  have framed := worked.ticks periods
  rwa [Bool.not_true, Bool.and_false, if_neg Bool.false_ne_true] at framed

/-- By induction on the frames that come later. -/
theorem after_of_failed {rom : Rom} {host : Host} {k : Nat}
    (failed : (after settings rom host k).failed host.noise = true) (later : Nat) :
    (after settings rom host (k + later)).failed host.noise = true ∧
      ∃ keypad, (after settings rom host (k + later)).machine host.noise =
        ((after settings rom host k).machine host.noise).withKeypad keypad := by
  induction later with
  | zero => exact ⟨failed, _, rfl⟩
  | succ later ih =>
      rcases ih with ⟨before, keypad, same⟩
      have frame := LeadsTo.frame_of_halted ⟨rfl, before, same⟩ settings
        (host.periods (k + later + 1)) (host.pressed (k + later)) (host.pressed (k + later + 1))
      exact ⟨frame.halted_eq, Keypad.ofFrame (host.pressed (k + later + 1)), frame.machine_eq⟩

end Schedule

namespace Session

variable {settings : Settings} {noise : Noise} {schedule : Schedule} {session : Session}

/-- The session has done what the schedule says, up to the mark of the screen. -/
structure Follows (noise : Noise) (schedule : Schedule) (session : Session) : Prop where
  machine_eq : session.machine.unmarked = (schedule.machine noise).unmarked
  running_eq : session.running = schedule.running
  halted_eq : session.halted = schedule.failed noise

/-- Both decide in the same way whether F2 pauses or resumes. -/
theorem Follows.running_work (follows : Follows noise schedule session) (settings : Settings)
    (previous current : List HostKey) :
    (session.running != session.toggles settings previous current) =
      (schedule.work settings noise previous current).running := by
  unfold toggles
  rw [follows.running_eq, follows.halted_eq, Bool.and_comm (!_)]
  rfl

/-- Until an operation fails, the steps of both have the same reply and lead to the
same machine up to the mark. -/
theorem Follows.perform (follows : Follows noise schedule session)
    (alive : schedule.failed noise = false) (settings : Settings)
    (previous current : List HostKey) :
    let keyed := (schedule.machine noise).withKeypad (Keypad.ofFrame current)
    let count := Schedule.steps settings previous current
      (schedule.work settings noise previous current).running
    (session.work settings noise previous current).1 =
        ((Operation.run count).perform noise keyed).1 ∧
      (session.work settings noise previous current).2.unmarked =
        ((Operation.run count).perform noise keyed).2.unmarked := by
  have keyed : (session.machine.withKeypad (Keypad.ofFrame current)).unmarked =
      ((schedule.machine noise).withKeypad (Keypad.ofFrame current)).unmarked :=
    congrArg (Machine.withKeypad (Keypad.ofFrame current)) follows.machine_eq
  rw [Session.work, stepCount, follows.running_work settings previous current, follows.halted_eq,
    alive]
  exact @Operation.perform_congr noise (.run _) _ nofun _ keyed

/-- After an operation has failed, the session sets the keys and takes no steps. -/
theorem Follows.work_of_failed (follows : Follows noise schedule session)
    (failed : schedule.failed noise = true) (settings : Settings)
    (previous current : List HostKey) :
    session.work settings noise previous current =
      (.ran 0, session.machine.withKeypad (Keypad.ofFrame current)) := by
  rw [Session.work, stepCount, follows.halted_eq, failed]
  rfl

/-- Both take the same steps, and the machines agree up to the mark. -/
theorem Follows.work (follows : Follows noise schedule session) (settings : Settings)
    (previous current : List HostKey) :
    (session.work settings noise previous current).2.unmarked =
        ((schedule.work settings noise previous current).machine noise).unmarked ∧
      (session.halted || (session.work settings noise previous current).1.isFailed) =
        (schedule.work settings noise previous current).failed noise := by
  rw [Schedule.machine_work, Schedule.failed_work, follows.halted_eq]
  dsimp only
  cases failed : schedule.failed noise with
  | true =>
      rw [follows.work_of_failed failed]
      exact ⟨congrArg (Machine.withKeypad (Keypad.ofFrame current)) follows.machine_eq, rfl⟩
  | false =>
      have same := follows.perform failed settings previous current
      exact ⟨same.2, congrArg Reply.isFailed same.1⟩

/-- The step lemma of the schedule. -/
theorem Follows.advance (follows : Follows noise schedule session) (settings : Settings)
    (periods : Nat) (previous current : List HostKey) :
    Follows noise (schedule.frame settings noise periods previous current)
      (session.advance settings noise periods previous current).session := by
  have running := follows.running_work settings previous current
  have work := follows.work settings previous current
  rw [advance_session]
  dsimp only
  refine ⟨?_, ?_, ?_⟩
  · dsimp only
    rw [running, work.2, Schedule.machine_frame]
    dsimp only
    split
    · have ticked (machine : Machine) :=
        Machine.tickTimes_comm Machine.unmarked (fun _ => rfl) machine periods
      rw [ticked, ticked, work.1]
    · exact work.1
  · rw [Schedule.running_frame]
    exact running
  · rw [Schedule.failed_frame]
    exact work.2

/-! ## All rounds -/

section Rounds

variable {rom : Rom} {host : Host} {machine : Machine} {window : Window} {canvas : Canvas}

/-- Before the first frame the program is loaded and nothing has failed. -/
theorem schedule_loads (loads : Machine.load rom Machine.initial = .ok () machine) :
    (Schedule.after settings rom host 0).machine host.noise = machine ∧
      (Schedule.after settings rom host 0).failed host.noise = false := by
  have loaded :
      Operation.performAll host.noise [.load rom] Machine.initial = ([.done], machine) := by
    simp only [Operation.performAll, Operation.perform, loads]
    rfl
  rw [Schedule.after, Schedule.machine, Schedule.failed, Operation.stateAfter, Operation.anyFails,
    loaded]
  exact ⟨rfl, rfl⟩

/-- A new session has done nothing but load its program. -/
theorem follows_initial (loads : Machine.load rom Machine.initial = .ok () machine) :
    Follows host.noise (Schedule.after settings rom host 0) (initial machine canvas) := by
  have start := @schedule_loads settings rom host machine loads
  exact ⟨congrArg Machine.unmarked start.1.symm, rfl, start.2.symm⟩

/-- Every round that is shown follows the schedule, and its machine is not marked. -/
theorem rounds_follow (loads : Machine.load rom Machine.initial = .ok () machine)
    (laid : Window.layout settings.scale settings.debug = .ok window)
    (allocated : window.blankCanvas = .ok canvas) :
    Keeps host
      (fun k session => UpToDate window session ∧
        Follows host.noise (Schedule.after settings rom host k) session ∧
        (k ≠ 0 → session.machine.unmarked = session.machine))
      0 host.frames (rounds settings window host 1 [] host.frames (initial machine canvas)) := by
  refine rounds_keep ⟨upToDate_initial loads allocated, follows_initial loads,
    fun none => absurd rfl none⟩ ?_
  rintro k session ⟨upToDate, follows, _⟩
  rcases (upToDate.advance host.noise (host.periods (k + 1)) (host.pressed k)
    (host.pressed (k + 1))).exists_present (Window.shaped_of_layout laid) with
    ⟨picture, presented, _, upToDate⟩
  have worked := follows.advance settings (host.periods (k + 1)) (host.pressed k)
    (host.pressed (k + 1))
  exact ⟨_, presented, upToDate, ⟨worked.machine_eq, worked.running_eq, worked.halted_eq⟩,
    fun _ => rfl⟩

/-- The machine of a round is the one that the schedule leads to, with the mark taken. -/
theorem round_eq_schedule (loads : Machine.load rom Machine.initial = .ok () machine)
    (laid : Window.layout settings.scale settings.debug = .ok window)
    (allocated : window.blankCanvas = .ok canvas) {k : Nat} {round : Round}
    (found : (shownRounds settings window host machine canvas)[k]? = some round) :
    round.session.machine =
        ((Schedule.after settings rom host (k + 1)).machine host.noise).unmarked ∧
      round.session.running = (Schedule.after settings rom host (k + 1)).running ∧
      round.session.halted = (Schedule.after settings rom host (k + 1)).failed host.noise := by
  have held := (@rounds_follow settings rom host machine window canvas loads laid allocated).held k
    round found
  rw [Nat.zero_add] at held
  rcases held with ⟨_, follows, unmarked⟩
  exact ⟨(unmarked (Nat.succ_ne_zero k)).symm.trans follows.machine_eq, follows.running_eq,
    follows.halted_eq⟩

end Rounds

/-! ## A session that pauses and halts -/

/-- A program that sets a register and then returns before it has called. -/
def setAndReturn : Rom := ⟨#[0x60, 0x01, 0x00, 0xEE]⟩

/-- Pausing with F2, a single step with F1, resuming with F2, and then nothing but keys
until Escape. -/
def pausedHost : Host :=
  quietHost [[.f2], [.f1, .w], [.f2], [.q], [.f2], [.escape]]

/-- The machine that has loaded this program and the one that has set the register,
whatever keys are down. -/
structure SetsAndFails (loaded reached : Machine) : Prop where
  loads : Machine.load setAndReturn Machine.initial = .ok () loaded
  sets : ∀ noise keypad, Machine.step noise (loaded.withKeypad keypad) =
    .ok () (reached.withKeypad keypad)
  fails : ∀ noise keypad, Machine.step noise (reached.withKeypad keypad) =
    .error .stackUnderflow (reached.withKeypad keypad)
  loaded_eq : loaded.pc = 0x200 ∧ loaded.registers.get 0 = 0
  reached_eq : reached.pc = 0x202 ∧ reached.registers.get 0 = 1

theorem exists_setsAndFails : ∃ loaded reached, SetsAndFails loaded reached := by
  have fits : setAndReturn.size ≤ Memory.romLimit := by decide
  rcases Memory.initial.exists_load fits with ⟨memory, copied⟩
  have setting : memory.word 0x200 = 0x6001 := @Memory.word_opcode _ _ copied 0 (by decide)
  have returning : memory.word 0x202 = 0x00EE := @Memory.word_opcode _ _ copied 1 (by decide)
  let loaded : Machine := { Machine.initial with memory }
  let reached : Machine :=
    { loaded with
      pc := 0x202
      registers := loaded.registers.set 0 1
      recent := [⟨0x200, 0x6001⟩] }
  refine ⟨loaded, reached, ?loads, ?sets, ?fails, ⟨rfl, rfl⟩, ⟨rfl, rfl⟩⟩
  case loads =>
    rw [Machine.load_run, copied]
  case sets =>
    intro noise keypad
    have permits : Machine.Permits (loaded.withKeypad keypad)
        ⟨0x6001, .setByte 0 1, some 0x202⟩ :=
      { start := show Machine.IsStart programStart by decide
        opcode_eq := setting.symm
        decoded := rfl
        course := ⟨.next, rfl, rfl⟩
        target_start := by rintro target ⟨⟩; decide }
    exact Machine.step_of_permits noise rfl permits
  case fails =>
    intro noise keypad
    let keyed := reached.withKeypad keypad
    have decoded : Instruction.decode (keyed.memory.word keyed.pc) = .ok .ret := by
      change Instruction.decode (memory.word 0x202) = .ok .ret
      rw [returning]
      rfl
    have refused : keyed.plan = .error .stackUnderflow := by
      rw [Machine.plan_eq (show Machine.IsStart 0x202 by decide), decoded]
      rfl
    refine Machine.step_eq_error_iff.mpr ⟨?_, rfl⟩
    change (do return Machine.complete noise (← keyed.plan) keyed) = _
    rw [refused]
    rfl

namespace SetsAndFails

variable {loaded reached : Machine} (program : SetsAndFails loaded reached)

include program

theorem run_once (noise : Noise) (keypad : Keypad) :
    (Operation.run 1).perform noise (loaded.withKeypad keypad) =
      (.ran 1, reached.withKeypad keypad) := by
  rw [Operation.perform, Machine.run_succ, program.sets]
  rfl

theorem run_reached (noise : Noise) (keypad : Keypad) (count : Nat) :
    (Operation.run (count + 1)).perform noise (reached.withKeypad keypad) =
      (.failed .stackUnderflow, reached.withKeypad keypad) := by
  rw [Operation.perform, Machine.run_succ, program.fails]
  rfl

theorem run_loaded (noise : Noise) (keypad : Keypad) (count : Nat) :
    (Operation.run (count + 2)).perform noise (loaded.withKeypad keypad) =
      (.failed .stackUnderflow, reached.withKeypad keypad) := by
  rw [Operation.perform, Machine.run_succ, program.sets]
  dsimp only
  rw [Machine.run_succ, program.fails]
  rfl

/-- Before the first frame the program is loaded and runs. -/
theorem start (host : Host) :
    (Schedule.after smallSettings setAndReturn host 0).LeadsTo host.noise true false loaded := by
  have start := @schedule_loads smallSettings setAndReturn host _ program.loads
  exact ⟨rfl, start.2, start.1⟩

/-- The schedule of each frame: it pauses, takes one step, resumes with the step that fails,
and only sets keys from then on. -/
theorem schedule_paused :
    let after := Schedule.after smallSettings setAndReturn pausedHost
    let keys (k : Nat) := Keypad.ofFrame (pausedHost.pressed k)
    (after 1).LeadsTo pausedHost.noise false false (loaded.withKeypad (keys 1)) ∧
      (after 2).LeadsTo pausedHost.noise false false (reached.withKeypad (keys 2)) ∧
      ∀ k, (after (k + 3)).LeadsTo pausedHost.noise true true
        (reached.withKeypad (keys (k + 3))) := by
  intro after keys
  have paused : (after 1).LeadsTo pausedHost.noise false false (loaded.withKeypad (keys 1)) :=
    (program.start pausedHost).frame rfl rfl rfl _
  have stepped : (after 2).LeadsTo pausedHost.noise false false (reached.withKeypad (keys 2)) :=
    paused.frame (by rfl) (by rfl) (program.run_once _ _) _
  refine ⟨paused, stepped, ?_⟩
  intro k
  induction k with
  | zero => exact stepped.frame (by rfl) (by rfl) (program.run_reached _ _ 10) _
  | succ k ih =>
      have frame := ih.frame_of_halted smallSettings (pausedHost.periods (k + 4))
        (pausedHost.pressed (k + 3)) (pausedHost.pressed (k + 4))
      rwa [Machine.withKeypad_withKeypad] at frame

end SetsAndFails

/-- Whether a session is running and halted, its program counter, its first register and
the lowest key that is down. -/
def outline (session : Session) : Bool × Bool × UInt16 × UInt8 × Option Key :=
  (session.running, session.halted, session.machine.pc, session.machine.registers.get 0,
    session.machine.keypad.firstDown)

theorem outline_of_leadsTo {running halted : Bool} {machine : Machine} {keypad : Keypad}
    (follows : session.machine = (schedule.machine noise).unmarked ∧
      session.running = schedule.running ∧ session.halted = schedule.failed noise)
    (leads : schedule.LeadsTo noise running halted (machine.withKeypad keypad)) :
    session.outline = (running, halted, machine.pc, machine.registers.get 0, keypad.firstDown) := by
  rw [outline, follows.1, follows.2.1, follows.2.2, leads.running_eq, leads.halted_eq,
    leads.machine_eq]
  rfl

/-! ## The whole session -/

/-- A session whose window opens and whose updates succeed shows one round for
each frame before the first with Escape.  The machine of a round is the one that
the schedule of its frames leads to, with the mark taken.  Once a step has
failed, the rounds change nothing but the keypad. -/
theorem session_follows_schedule {rom : Rom} {host : Host} {machine : Machine} {window : Window}
    {canvas : Canvas} (loads : Machine.load rom Machine.initial = .ok () machine)
    (laid : Window.layout settings.scale settings.debug = .ok window)
    (allocated : window.blankCanvas = .ok canvas) (opens : host.openFailure = none)
    (updates : host.updateFailure = none) :
    pictures (run settings rom host).events =
      (shownRounds settings window host machine canvas).map (·.session.canvas) ∧
    (run settings rom host).ending = .closed ∧
    (shownRounds settings window host machine canvas).length =
      (host.frames.takeWhile fun frame => !frame.contains .escape).length ∧
    (∀ (k : Nat) (round : Round),
      (shownRounds settings window host machine canvas)[k]? = some round →
      round.session.machine =
          ((Schedule.after settings rom host (k + 1)).machine host.noise).unmarked ∧
        round.session.running = (Schedule.after settings rom host (k + 1)).running ∧
        round.session.halted = (Schedule.after settings rom host (k + 1)).failed host.noise) ∧
    ∀ (k further : Nat) (round late : Round),
      (shownRounds settings window host machine canvas)[k]? = some round →
      (shownRounds settings window host machine canvas)[k + further]? = some late →
      round.session.halted = true →
      late.session.halted = true ∧
        late.session.machine = round.session.machine.withKeypad late.session.machine.keypad := by
  have finished :=
    (@rounds_follow settings rom host machine window canvas loads laid allocated).finished updates
  refine ⟨?_, ?_, finished.2, fun k round => round_eq_schedule loads laid allocated, ?_⟩
  · rw [pictures_run loads laid allocated, if_pos opens]
  · rw [run_eq loads laid allocated, opens]
    exact finished.1
  · intro k further round late found foundLate halted
    have early := round_eq_schedule loads laid allocated found
    have later := round_eq_schedule loads laid allocated foundLate
    rw [early.2.2] at halted
    rcases Schedule.after_of_failed halted further with ⟨failed, keypad, same⟩
    rw [Nat.add_right_comm] at failed same
    refine ⟨later.2.2.trans failed, ?_⟩
    rw [later.1, early.1, same]
    rfl

/-- Paused in the first round, the session takes one step in the second.  In the third it
runs again and is halted by the step that fails, and from then on only its keys change. -/
theorem paused_session_steps_and_halts :
    ∃ machine window canvas,
      Machine.load setAndReturn Machine.initial = .ok () machine ∧
      Window.layout smallSettings.scale smallSettings.debug = .ok window ∧
      window.blankCanvas = .ok canvas ∧
      (run smallSettings setAndReturn pausedHost).ending = .closed ∧
      (shownRounds smallSettings window pausedHost machine canvas).map (·.session.outline) =
        [(false, false, 0x200, 0, none), (false, false, 0x202, 1, some 0x5),
          (true, true, 0x202, 1, none), (true, true, 0x202, 1, some 0x4),
          (true, true, 0x202, 1, none)] := by
  rcases exists_setsAndFails with ⟨loaded, reached, program⟩
  rcases program.schedule_paused with ⟨paused, stepped, halted⟩
  rcases @session_follows_schedule smallSettings setAndReturn pausedHost loaded _ _ program.loads
    layout_small blankCanvas_small rfl rfl with ⟨_, closed, count, states, _⟩
  refine ⟨loaded, _, _, program.loads, layout_small, blankCanvas_small, closed, ?_⟩
  generalize shownRounds smallSettings _ pausedHost loaded _ = shown at count states ⊢
  have five : shown.length = 5 := count.trans (by decide)
  match shown, five with
  | [first, second, third, fourth, fifth], _ =>
      simp only [List.map_cons, List.map_nil]
      rw [outline_of_leadsTo (states 0 first rfl) paused,
        outline_of_leadsTo (states 1 second rfl) stepped,
        outline_of_leadsTo (states 2 third rfl) (halted 0),
        outline_of_leadsTo (states 3 fourth rfl) (halted 1),
        outline_of_leadsTo (states 4 fifth rfl) (halted 2), program.loaded_eq.1,
        program.loaded_eq.2, program.reached_eq.1, program.reached_eq.2]
      rfl

end Session
end Chip8
