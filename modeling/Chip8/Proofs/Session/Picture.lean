import Chip8.Proofs.Memory.Ring
import Chip8.Proofs.Session.Rounds
import Chip8.Proofs.Window.Painting

namespace Chip8

/-!
# The pictures of a session

The screen is painted only in rounds in which it is marked as changed, and yet
every picture that is shown is the one of the machine at that moment.  Between
two pictures the canvas is up to date: it shows the screen unless the screen is
marked.  A round that changes the screen marks it, and showing the picture takes
the mark.
-/

/-- The panel shows the lines of a machine and nothing else of it. -/
theorem Panel.draw_congr {machine other : Machine} (same : Panel.lines machine = Panel.lines other)
    (panel : Panel) (canvas : Canvas) (foreground background : Colour) :
    panel.draw machine canvas foreground background =
      panel.draw other canvas foreground background := by
  unfold Panel.draw
  rw [same]

/-- Taking the mark does not change what the panel shows. -/
theorem Panel.draw_unmarked (panel : Panel) (machine : Machine) (canvas : Canvas)
    (foreground background : Colour) :
    panel.draw machine.unmarked canvas foreground background =
      panel.draw machine canvas foreground background :=
  Panel.draw_congr rfl panel canvas foreground background

theorem Window.Shows.unmarked {window : Window} {machine : Machine} {canvas : Canvas}
    (shows : window.Shows machine canvas) : window.Shows machine.unmarked canvas where
  framed := shows.framed
  screen := shows.screen
  panel panel chosen := by
    unfold Window.ShowsPanel
    simp only [Panel.draw_unmarked]
    exact shows.panel panel chosen

namespace Session

variable {settings : Settings} {window : Window} {session : Session} {scale : Nat} {debug : Bool}

/-! ## Between pictures -/

/-- The canvas shows the screen unless the screen is marked. -/
structure UpToDate (window : Window) (session : Session) : Prop where
  framed : window.Framed session.canvas
  seen : session.machine.screen.changed = false →
    window.ShowsScreen session.machine.screen session.canvas

/-- A round either marks the screen or leaves it as it was. -/
theorem UpToDate.advance (upToDate : UpToDate window session) (noise : Noise) (periods : Nat)
    (previous current : List HostKey) :
    UpToDate window (session.advance settings noise periods previous current).session := by
  have same : (session.advance settings noise periods previous current).session.canvas =
      session.canvas := by
    rw [advance_session]
  refine ⟨same.symm ▸ upToDate.framed, ?_⟩
  intro unchanged
  rw [same]
  rcases session.advance_marks with marked | screen_eq
  · cases unchanged.symm.trans marked
  · rw [screen_eq] at unchanged ⊢
    exact upToDate.seen unchanged

/-- Showing the picture of a session that is up to date succeeds, and the
session is up to date again. -/
theorem UpToDate.exists_present (shaped : window.Shaped scale debug) {worked : Round}
    (upToDate : UpToDate window worked.session) :
    ∃ picture,
      present window worked =
        .ok { worked with
          session := { worked.session with
            canvas := picture
            machine := worked.session.machine.unmarked } } ∧
      window.Shows worked.session.machine.unmarked picture ∧
      UpToDate window
        { worked.session with
          canvas := picture
          machine := worked.session.machine.unmarked } := by
  rcases Window.exists_refresh shaped upToDate.framed upToDate.seen with ⟨picture, refreshed, shows⟩
  refine ⟨picture, ?_, shows.unmarked, shows.framed, fun _ => shows.screen⟩
  unfold present
  rw [refreshed]
  rfl

/-- A new session has a blank canvas, and the screen of a program that was just
loaded is marked. -/
theorem upToDate_initial {rom : Rom} {before machine : Machine} {canvas : Canvas}
    (loads : Machine.load rom before = .ok () machine)
    (allocated : window.blankCanvas = .ok canvas) : UpToDate window (initial machine canvas) := by
  refine ⟨Window.framed_blankCanvas allocated, ?_⟩
  intro unchanged
  rw [Machine.load_run] at loads
  cases copied : Memory.initial.load rom with
  | error failure =>
      rw [copied] at loads
      cases loads
  | ok memory =>
      rw [copied] at loads
      cases loads
      cases unchanged

/-! ## The whole session -/

theorem exists_loaded {rom : Rom} (fits : rom.size ≤ Memory.romLimit) :
    ∃ machine, Machine.load rom Machine.initial = .ok () machine := by
  rcases Memory.initial.exists_load fits with ⟨memory, copied⟩
  refine ⟨{ Machine.initial with memory }, ?_⟩
  rw [Machine.load_run, copied]

/-- The rounds that a session shows, from a loaded machine and a blank canvas on. -/
def shownRounds (settings : Settings) (window : Window) (host : Host) (machine : Machine)
    (canvas : Canvas) : List Round :=
  (rounds settings window host 1 [] host.frames (initial machine canvas)).1

section Run

variable {rom : Rom} {host : Host} {machine : Machine} {canvas : Canvas}

/-- A session that has loaded its program ends at once when its window does not
open.  Otherwise it plays its rounds. -/
theorem run_eq (loads : Machine.load rom Machine.initial = .ok () machine)
    (laid : Window.layout settings.scale settings.debug = .ok window)
    (allocated : window.blankCanvas = .ok canvas) :
    run settings rom host =
      let opened := Event.opened (Window.title none) window.width window.height
      let played := rounds settings window host 1 [] host.frames (initial machine canvas)
      match host.openFailure with
      | some text =>
          ⟨[opened], Machine.initial.loadEntries rom, .failed ["could not open a window", text]⟩
      | none =>
          ⟨[opened, .frameTime Window.frameTime] ++ played.1.flatMap Round.events,
            Machine.initial.loadEntries rom ++ played.1.flatMap Round.entries, played.2⟩ := by
  cases opening : host.openFailure <;>
    simp only [run, loads, openWindow, laid, play, allocated, opening]

theorem pictures_run (loads : Machine.load rom Machine.initial = .ok () machine)
    (laid : Window.layout settings.scale settings.debug = .ok window)
    (allocated : window.blankCanvas = .ok canvas) :
    pictures (run settings rom host).events =
      if host.openFailure = none then
        (shownRounds settings window host machine canvas).map (·.session.canvas)
      else [] := by
  rw [run_eq loads laid allocated]
  cases host.openFailure with
  | some text => rfl
  | none =>
      rw [if_pos rfl]
      exact (pictures_append _ _).trans (pictures_rounds _)

/-- In every round that is shown the picture is the one of the machine. -/
theorem rounds_show (shaped : window.Shaped scale debug)
    (upToDate : UpToDate window (initial machine canvas)) :
    Keeps host
      (fun k session => UpToDate window session ∧
        (k ≠ 0 → window.Shows session.machine session.canvas))
      0 host.frames (rounds settings window host 1 [] host.frames (initial machine canvas)) := by
  refine rounds_keep ⟨upToDate, fun none => absurd rfl none⟩ ?_
  intro k session holds
  rcases (holds.1.advance host.noise (host.periods (k + 1)) (host.pressed k)
    (host.pressed (k + 1))).exists_present shaped with ⟨picture, presented, shows, upToDate⟩
  exact ⟨_, presented, upToDate, fun _ => shows⟩

/-- Every picture is the one of the machine that it shows: the screen magnified by
the scale, and the panel as it is drawn for this machine.  Nothing on the way
is a fault.  The positions that are computed for the screen and for clearing the
panel lie in the buffer, and from a scale of three on so do those of its text. -/
theorem pictures_show_machine (loads : Machine.load rom Machine.initial = .ok () machine)
    (laid : Window.layout settings.scale settings.debug = .ok window)
    (allocated : window.blankCanvas = .ok canvas) :
    (window.scale = settings.scale ∧ window.height = Screen.height * settings.scale ∧
      window.panel.isSome = settings.debug) ∧
    pictures (run settings rom host).events =
      (if host.openFailure = none then
        (shownRounds settings window host machine canvas).map (·.session.canvas)
      else []) ∧
    (∀ fault, (run settings rom host).ending ≠ .fault fault) ∧
    ∀ round ∈ shownRounds settings window host machine canvas,
      window.Shows round.session.machine round.session.canvas ∧
      (∀ position, window.PaintsAt position → position < round.session.canvas.pixels.size) ∧
      (∀ panel, window.panel = some panel → ∀ position,
        panel.InColumns window.width round.session.canvas.pixels.size position →
          position < round.session.canvas.pixels.size) ∧
      (3 ≤ settings.scale →
        window.Inside round.session.machine round.session.canvas.pixels.size) := by
  have shaped := Window.shaped_of_layout laid
  have keeps := @rounds_show settings window settings.scale settings.debug host machine canvas shaped
    (upToDate_initial loads allocated)
  refine ⟨⟨shaped.scale_eq, ?_, shaped.debug_eq⟩, pictures_run loads laid allocated, ?_, ?_⟩
  · rw [shaped.height_eq, shaped.scale_eq]
  · intro fault
    rw [run_eq loads laid allocated]
    cases host.openFailure with
    | some text => nofun
    | none => exact keeps.sound fault
  · intro round member
    rcases List.mem_iff_getElem?.mp member with ⟨k, found⟩
    have shows := (keeps.held k round found).2 (Nat.succ_ne_zero _)
    have size_eq := shows.framed.size_eq
    refine ⟨shows, ?_, ?_, ?_⟩
    · intro position painted
      rw [size_eq]
      exact Window.lt_size_of_paintsAt shaped painted
    · intro panel chosen position cleared
      exact Window.lt_size_of_inColumns cleared
    · intro large
      rw [size_eq]
      exact shaped.inside (shaped.scale_eq ▸ large) _

end Run

/-! ## A small session -/

/-- A host on which nothing fails and no time passes. -/
def quietHost (frames : List (List HostKey)) : Host where
  frames
  openFailure := none
  updateFailure := none
  periods _ := 0
  noise _ := 0

/-- A program that jumps to itself. -/
def selfJump : Rom := ⟨#[0x12, 0x00]⟩

theorem exists_load_selfJump : ∃ machine, Machine.load selfJump Machine.initial = .ok () machine :=
  exists_loaded (show selfJump.size ≤ Memory.romLimit by decide)

/-- The smallest window with a panel. -/
def smallSettings : Settings :=
  ((Settings.forRom "self-jump.ch8").withScale 1).withDebug true

theorem layout_small :
    Window.layout smallSettings.scale smallSettings.debug = .ok ⟨1, 128, 32, some ⟨1, 64⟩⟩ := by
  rfl

theorem blankCanvas_small :
    Window.blankCanvas ⟨1, 128, 32, some ⟨1, 64⟩⟩ =
      .ok (Canvas.filled 128 32 Colour.background) := by
  rfl

theorem small_session_shows_machine :
    ∃ machine window canvas,
      Machine.load selfJump Machine.initial = .ok () machine ∧
      Window.layout smallSettings.scale smallSettings.debug = .ok window ∧
      window.blankCanvas = .ok canvas ∧
      pictures (run smallSettings selfJump (quietHost [[]])).events =
        (shownRounds smallSettings window (quietHost [[]]) machine canvas).map (·.session.canvas) ∧
      ∀ round ∈ shownRounds smallSettings window (quietHost [[]]) machine canvas,
        window.Shows round.session.machine round.session.canvas := by
  rcases exists_load_selfJump with ⟨machine, loads⟩
  have result := @pictures_show_machine smallSettings _ selfJump (quietHost [[]]) machine _ loads
    layout_small blankCanvas_small
  exact ⟨machine, _, _, loads, layout_small, blankCanvas_small, result.2.1,
    fun round member => (result.2.2.2 round member).1⟩

/-- The sixth line of the panel's text begins in the row behind the last one, so
at a scale of one there are positions behind the end of the buffer. -/
theorem text_leaves_small_buffer :
    ∃ machine window canvas round,
      Machine.load selfJump Machine.initial = .ok () machine ∧
      Window.layout smallSettings.scale smallSettings.debug = .ok window ∧
      window.blankCanvas = .ok canvas ∧
      round ∈ shownRounds smallSettings window (quietHost [[]]) machine canvas ∧
      ¬ window.Inside round.session.machine round.session.canvas.pixels.size := by
  rcases exists_load_selfJump with ⟨machine, loads⟩
  have shaped := Window.shaped_of_layout layout_small
  have keeps := @rounds_show smallSettings _ 1 true (quietHost [[]]) machine _ shaped
    (upToDate_initial loads blankCanvas_small)
  rcases List.exists_mem_of_length_pos (l := (rounds smallSettings _ (quietHost [[]]) 1 [] _
    (initial machine _)).1) (by rw [(keeps.finished rfl).2]; decide) with ⟨round, member⟩
  rcases List.mem_iff_getElem?.mp member with ⟨k, found⟩
  have shows := (keeps.held k round found).2 (Nat.succ_ne_zero _)
  refine ⟨machine, _, _, round, loads, layout_small, blankCanvas_small, member, ?_⟩
  rw [shows.framed.size_eq]
  exact Window.not_inside_of_scale_one shaped _

end Session
end Chip8
