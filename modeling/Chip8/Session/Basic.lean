import Chip8.Journal
import Chip8.Session.Window

namespace Chip8

/-!
# Sessions

A session plays a ROM in a window.  The host is given as data: the keys that
are down in each frame, how many timer periods pass in each round, the random
numbers, and what goes wrong with the window.  A session answers with what was
done to the window, what was reported, and how it ended.

In each round the keypad is read first, then the keys that pause and single
step, then instructions are executed, then the timers run, and last the picture
is shown.  After a failed step the session is halted: rounds go on and the
keypad is still read, but nothing is executed and the timers stand still.
-/

/-- The host that a session runs on. -/
structure Host where
  /-- The keys that are down in each frame, until the window is closed. -/
  frames : List (List HostKey)
  /-- Why the window does not open. -/
  openFailure : Option String
  /-- Which update of the window fails, counted from one, and why. -/
  updateFailure : Option (Nat × String)
  /-- The timer periods that pass in each round, counted from one. -/
  periods : Nat → Nat
  noise : Noise

/-- What is done to the window. -/
inductive Event where
  | opened (title : String) (width height : Nat)
  | frameTime (microseconds : Nat)
  | titled (title : String)
  | shown (picture : Canvas)
  deriving DecidableEq

/-- How a session ends. -/
inductive Ending where
  | closed
  /-- The causes of a failure, outermost first. -/
  | failed (causes : List String)
  | fault (fault : Fault)
  deriving DecidableEq, Repr

/-- What is known of a session when it is over. -/
structure Record where
  events : List Event
  log : List Entry
  ending : Ending
  deriving DecidableEq

/-- What a session keeps from one round to the next. -/
structure Session where
  machine : Machine
  canvas : Canvas
  running : Bool
  halted : Bool
  deriving DecidableEq

/-- A round, or a part of one: the session after it, the titles that the window got and
what was reported. -/
structure Round where
  session : Session
  titles : List String
  entries : List Entry
  deriving DecidableEq

namespace Round

def events (round : Round) : List Event :=
  round.titles.map .titled ++ [.shown round.session.canvas]

end Round

namespace Session

/-- The key went down with this frame. -/
def newlyDown (key : HostKey) (previous current : List HostKey) : Bool :=
  current.contains key && !previous.contains key

/-- Sets every key of the keypad to whether its host key is down. -/
def syncKeys (frame : List HostKey) (machine : Machine) : Machine :=
  keymap.foldl
    (fun machine (hostKey, key) => machine.setKey (UInt8.ofNat key) (frame.contains hostKey))
    machine

/-- F2 pauses and resumes, with the debug panel and until the session halts. -/
def toggles (settings : Settings) (previous current : List HostKey) (session : Session) : Bool :=
  !session.halted && settings.debug && newlyDown .f2 previous current

/-- The number of steps of a round.  A paused session takes one when F1 goes down. -/
def stepCount (settings : Settings) (previous current : List HostKey) (session : Session) : Nat :=
  if session.halted then 0
  else if session.running then settings.stepsPerFrame
  else if settings.debug && newlyDown .f1 previous current then 1
  else 0

/-- Takes up to `count` steps.  The first that fails halts the session, and those that
would come after it are not taken. -/
def execute (noise : Noise) : Nat → Session → Round
  | 0, session => ⟨session, [], []⟩
  | count + 1, session =>
      let announced := session.machine.announcement
      match Machine.step noise session.machine with
      | .ok _ machine =>
          let later := execute noise count { session with machine }
          { later with entries := announced ++ later.entries }
      | .error failure machine =>
          { session := { session with machine, halted := true }
            titles := [Window.title (some ("halted: " ++ failure.message))]
            entries := announced ++ [Entry.halted machine.pc failure, Entry.stopped failure] }

/-- Everything in a round before the picture is shown. -/
def advance (settings : Settings) (noise : Noise) (periods : Nat)
    (previous current : List HostKey) (session : Session) : Round :=
  let session := { session with machine := syncKeys current session.machine }
  let toggled := session.toggles settings previous current
  let session := { session with running := session.running != toggled }
  let worked := session.execute noise (session.stepCount settings previous current)
  let machine :=
    if worked.session.running && !worked.session.halted then
      worked.session.machine.tickTimes periods
    else worked.session.machine
  { session := { worked.session with machine }
    titles :=
      (if toggled then [Window.title (if session.running then none else some "paused")] else []) ++
        worked.titles
    entries := worked.entries }

/-- Shows the picture of a round. -/
def present (window : Window) (round : Round) : Except Fault Round := do
  let (canvas, machine) ← window.refresh round.session.machine round.session.canvas
  return { round with session := { round.session with canvas, machine } }

/-- The rounds of a session from its `number`-th on.  Escape ends it before the
round in which it is down, and so does the end of the frames. -/
def rounds (settings : Settings) (window : Window) (host : Host) (number : Nat)
    (previous : List HostKey) : List (List HostKey) → Session → List Round × Ending
  | [], _ => ([], .closed)
  | current :: later, session =>
      if current.contains .escape then ([], .closed)
      else
        let worked :=
          session.advance settings host.noise (host.periods number) previous current
        match present window worked with
        | .error fault => ([], .fault fault)
        | .ok round =>
            match host.updateFailure with
            | some (failing, text) =>
                if failing = number then ([round], .failed [text])
                else
                  let (rest, ending) :=
                    rounds settings window host (number + 1) current later round.session
                  (round :: rest, ending)
            | none =>
                let (rest, ending) :=
                  rounds settings window host (number + 1) current later round.session
                (round :: rest, ending)

/-- The session that begins when a program is loaded and its window is open. -/
def initial (machine : Machine) (canvas : Canvas) : Session where
  machine
  canvas
  running := true
  halted := false

/-- Plays a loaded machine in an open window. -/
def play (settings : Settings) (window : Window) (host : Host) (log : List Entry)
    (opening : List Event) (machine : Machine) : Record :=
  match window.blankCanvas with
  | .error fault => ⟨opening, log, .fault fault⟩
  | .ok canvas =>
      let (shown, ending) :=
        rounds settings window host 1 [] host.frames (initial machine canvas)
      ⟨opening ++ shown.flatMap Round.events, log ++ shown.flatMap Round.entries, ending⟩

/-- Opens a window for a loaded machine and plays it. -/
def openWindow (settings : Settings) (host : Host) (log : List Entry) (machine : Machine) :
    Record :=
  match Window.layout settings.scale settings.debug with
  | .error fault => ⟨[], log, .fault fault⟩
  | .ok window =>
      let opened := Event.opened (Window.title none) window.width window.height
      match host.openFailure with
      | some text => ⟨[opened], log, .failed ["could not open a window", text]⟩
      | none =>
          play settings window host log [opened, .frameTime Window.frameTime] machine

/-- Loads a ROM and plays it. -/
def run (settings : Settings) (rom : Rom) (host : Host) : Record :=
  let log := Machine.initial.loadEntries rom
  match Machine.load rom Machine.initial with
  | .error failure _ => ⟨[], log, .failed [failure.message]⟩
  | .ok _ machine => openWindow settings host log machine

end Session
end Chip8
