import Chip8.Proofs.Session.Picture

namespace Chip8

/-!
# Opening the window

A scale has a smallest value and no largest one, so the sizes of a window may
be too large to be computed.  All of them are at most the width, which decides
alone whether a window is laid out.  The width grows with the scale, and so there
is a largest scale.  It is smaller with a panel, which takes almost half as many
columns as a large screen.
-/

namespace Window

/-- The sizes of a window at a scale, as numbers of any length. -/
def ofScale (scale : Nat) (debug : Bool) : Window :=
  let cell := max 1 (32 * scale / 70)
  { scale
    width := 64 * scale + if debug then 64 * cell else 0
    height := 32 * scale
    panel := if debug then some ⟨cell, 64 * scale⟩ else none }

/-- The largest scale at which a window can be laid out. -/
def largestScale (debug : Bool) : Nat :=
  if debug then 197805160104115902 else 288230376151711743

variable {scale : Nat} {debug : Bool}

theorem width_ofScale_lt_iff :
    (ofScale scale debug).width < Size.limit ↔ scale ≤ largestScale debug := by
  unfold Size.limit UInt64.size
  cases debug with
  | false =>
      change 64 * scale + 0 < _ ↔ scale ≤ 288230376151711743
      omega
  | true =>
      change 64 * scale + 64 * max 1 (32 * scale / 70) < _ ↔ scale ≤ 197805160104115902
      omega

/-- The width of the panel is a size if that of the screen is. -/
theorem width_panel_of_lt (short : 64 * scale < Size.limit) (origin : Nat) :
    Panel.width ⟨max 1 (32 * scale / 70), origin⟩ = .ok (64 * max 1 (32 * scale / 70)) := by
  have narrow : 64 * max 1 (32 * scale / 70) < Size.limit := by
    unfold Size.limit UInt64.size at short ⊢
    omega
  exact Size.mul_of_lt narrow

/-- The width decides alone whether a window can be laid out. -/
theorem layout_eq (scale : Nat) (debug : Bool) :
    layout scale debug =
      (Size.check (ofScale scale debug).width).map fun _ => ofScale scale debug := by
  rcases Nat.lt_or_ge (64 * scale) Size.limit with short | long
  case inr =>
    have game : Size.mul Screen.width scale = .error .overflow := Size.mul_of_ge long
    have wide : Size.check (ofScale scale debug).width = .error .overflow :=
      Size.check_of_ge (Nat.le_trans long (Nat.le_add_right _ _))
    rw [wide, layout, game]
    rfl
  have shorter : 32 * scale < Size.limit :=
    Nat.lt_of_le_of_lt (Nat.mul_le_mul_right scale (by decide)) short
  have game : Size.mul Screen.width scale = .ok (64 * scale) := Size.mul_of_lt short
  have tall : Size.mul Screen.height scale = .ok (32 * scale) := Size.mul_of_lt shorter
  cases debug with
  | false =>
      have wide : Size.check (ofScale scale false).width = .ok (64 * scale) :=
        Size.check_of_lt short
      rw [wide, layout, game, tall]
      rfl
  | true =>
      -- All products are sizes, so only the sum of the two widths can be too large.
      have sum : Size.add (64 * scale) (64 * max 1 (32 * scale / 70)) =
          Size.check (ofScale scale true).width := rfl
      simp only [layout, game, tall, Panel.forScale_of_lt shorter, width_panel_of_lt short, sum,
        bind, Except.bind, if_true]
      cases checked : Size.check (ofScale scale true).width with
      | error fault => rfl
      | ok width =>
          cases ((Size.check_eq_ok_iff _ _).mp checked).2
          rfl

end Window

namespace Session

variable {settings : Settings} {rom : Rom}

theorem head?_events_play (window : Window) (host : Host) (log : List Entry) (first : Event)
    (later : List Event) (machine : Machine) :
    (play settings window host log (first :: later) machine).events.head? = some first := by
  unfold play
  cases window.blankCanvas <;> rfl

theorem head?_events_openWindow {window : Window}
    (laid : Window.layout settings.scale settings.debug = .ok window) (host : Host)
    (log : List Entry) (machine : Machine) :
    (openWindow settings host log machine).events.head? =
      some (.opened (Window.title none) window.width window.height) := by
  unfold openWindow
  rw [laid]
  cases host.openFailure with
  | some text => rfl
  | none => exact head?_events_play window host log _ _ machine

/-- A scale is raised to one.  Up to the largest scale the sizes of the window are
exact, and a session that has loaded its program begins with a request for a
window of these sizes.  At every larger scale the width is no size, and the session
ends with an overflow before it asks for a window. -/
theorem window_opens_up_to_the_largest_scale (fits : rom.size ≤ Memory.romLimit)
    (settings : Settings) (scale : Nat) (debug : Bool) (host : Host) :
    let chosen := (settings.withScale scale).withDebug debug
    let side := max scale 1
    let cell := max 1 (32 * side / 70)
    let width := 64 * side + if debug then 64 * cell else 0
    (width < Size.limit ↔ side ≤ Window.largestScale debug) ∧
    (side ≤ Window.largestScale debug →
      Window.layout chosen.scale chosen.debug =
        .ok ⟨side, width, 32 * side, if debug then some ⟨cell, 64 * side⟩ else none⟩ ∧
      (run chosen rom host).events.head? =
        some (.opened (Window.title none) width (32 * side))) ∧
    (Window.largestScale debug < side →
      Window.layout chosen.scale chosen.debug = .error .overflow ∧
      run chosen rom host = ⟨[], Machine.initial.loadEntries rom, .fault .overflow⟩) := by
  intro chosen side cell width
  rcases exists_loaded fits with ⟨machine, loads⟩
  have opens : run chosen rom host =
      openWindow chosen host (Machine.initial.loadEntries rom) machine := by
    rw [run, loads]
  have boundary : width < Size.limit ↔ side ≤ Window.largestScale debug :=
    Window.width_ofScale_lt_iff
  refine ⟨boundary, ?_, ?_⟩
  · intro small
    have laid : Window.layout chosen.scale chosen.debug = .ok (Window.ofScale side debug) := by
      have wide := Size.check_of_lt (boundary.mpr small)
      exact (Window.layout_eq side debug).trans (congrArg _ wide)
    refine ⟨laid, ?_⟩
    rw [opens]
    exact head?_events_openWindow laid host _ machine
  · intro large
    have overflows : Window.layout chosen.scale chosen.debug = .error .overflow := by
      have wide : Size.limit ≤ width :=
        Nat.not_lt.mp fun short => Nat.not_le.mpr large (boundary.mp short)
      exact (Window.layout_eq side debug).trans (congrArg _ (Size.check_of_ge wide))
    refine ⟨overflows, ?_⟩
    rw [opens, openWindow, overflows]

/-- The widest window with a panel is requested, also by a host that cannot open
it.  At the next scale there is no request. -/
theorem largest_window_is_requested :
    let host : Host := { quietHost [] with openFailure := some "no" }
    let largest := ((Settings.forRom "self-jump.ch8").withScale 197805160104115902).withDebug true
    let larger := ((Settings.forRom "self-jump.ch8").withScale 197805160104115903).withDebug true
    (run largest selfJump host).events.head? =
        some (.opened "yac8 - ESC to exit" 18446744073709551488 6329765123331708864) ∧
      run larger selfJump host =
        ⟨[], Machine.initial.loadEntries selfJump, .fault .overflow⟩ := by
  intro host largest larger
  have fits : selfJump.size ≤ Memory.romLimit := by decide
  constructor
  · have opens := window_opens_up_to_the_largest_scale fits (Settings.forRom "self-jump.ch8")
      197805160104115902 true host
    exact (opens.2.1 (by decide)).2
  · have ends := window_opens_up_to_the_largest_scale fits (Settings.forRom "self-jump.ch8")
      197805160104115903 true host
    exact (ends.2.2 (by decide)).2

/-- Two scales that can be chosen.  At one the columns of the screen alone are too
many, at the other those of the screen and of the panel together. -/
theorem some_scales_have_no_window :
    let wide := (Settings.forRom "self-jump.ch8").withScale 288230376151711744
    let panelled := ((Settings.forRom "self-jump.ch8").withScale 197805160104115903).withDebug true
    (wide.scale < Size.limit ∧ Window.layout wide.scale wide.debug = .error .overflow ∧
      run wide selfJump (quietHost [[]]) =
        ⟨[], Machine.initial.loadEntries selfJump, .fault .overflow⟩) ∧
    (panelled.scale < Size.limit ∧
      Window.layout panelled.scale panelled.debug = .error .overflow ∧
      run panelled selfJump (quietHost [[]]) =
        ⟨[], Machine.initial.loadEntries selfJump, .fault .overflow⟩) := by
  intro wide panelled
  rcases exists_load_selfJump with ⟨machine, loads⟩
  have screen : Window.layout wide.scale wide.debug = .error .overflow := by
    have large : Size.limit ≤ (Window.ofScale 288230376151711744 false).width := by decide
    exact (Window.layout_eq _ _).trans (congrArg _ (Size.check_of_ge large))
  have together : Window.layout panelled.scale panelled.debug = .error .overflow := by
    have large : Size.limit ≤ (Window.ofScale 197805160104115903 true).width := by decide
    exact (Window.layout_eq _ _).trans (congrArg _ (Size.check_of_ge large))
  refine ⟨⟨by decide, screen, ?_⟩, by decide, together, ?_⟩
  · rw [run, loads]
    change openWindow wide _ _ machine = _
    rw [openWindow, screen]
  · rw [run, loads]
    change openWindow panelled _ _ machine = _
    rw [openWindow, together]

end Session
end Chip8
