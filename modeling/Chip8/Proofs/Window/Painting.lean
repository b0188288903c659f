import Chip8.Session.Window
import Chip8.Proofs.Machine.Redraw
import Chip8.Proofs.Panel.Pixels

namespace Chip8
namespace Window

/-!
# Painting a window

All sizes that painting needs were computed when the window was laid out, and
the canvas was allocated with them.  So neither the screen nor the panel can meet
a fault later on, whatever the scale is.

The screen fills a rectangle of the canvas.  The panel's columns begin behind it,
which keeps the two apart.
-/

variable {scale : Nat} {debug : Bool} {window : Window} {canvas : Canvas} {panel : Panel}

/-! ## Sizes -/

/-- The sizes of a window that was laid out for a scale. -/
structure Shaped (scale : Nat) (debug : Bool) (window : Window) : Prop where
  scale_eq : window.scale = scale
  debug_eq : window.panel.isSome = debug
  height_eq : window.height = Screen.height * window.scale
  screen_le : Screen.width * window.scale ≤ window.width
  width_lt : window.width < Size.limit
  cell_eq : ∀ panel, window.panel = some panel →
    panel.cell = max (window.height / Panel.cellsTall) 1
  origin_eq : ∀ panel, window.panel = some panel → panel.origin = Screen.width * window.scale
  width_eq : ∀ panel, window.panel = some panel →
    window.width = panel.origin + Panel.cellsWide * panel.cell

theorem shaped_of_layout (laid : layout scale debug = .ok window) : Shaped scale debug window := by
  unfold layout at laid
  rcases Machine.ok_of_bind laid with ⟨gameWidth, wide, laid⟩
  rcases (Size.check_eq_ok_iff _ _).mp wide with ⟨short, rfl⟩
  cases debug with
  | false =>
      rcases Machine.ok_of_bind laid with ⟨height, tall, made⟩
      rcases (Size.check_eq_ok_iff _ _).mp tall with ⟨_, rfl⟩
      cases made
      exact ⟨rfl, rfl, rfl, Nat.le_refl _, short, nofun, nofun, nofun⟩
  | true =>
      rcases Machine.ok_of_bind laid with ⟨panel, chosen, laid⟩
      rcases Machine.ok_of_bind laid with ⟨panelWidth, broad, laid⟩
      rcases Machine.ok_of_bind laid with ⟨width, total, laid⟩
      rcases Machine.ok_of_bind laid with ⟨height, tall, made⟩
      rcases Machine.ok_of_bind chosen with ⟨again, high, chosen⟩
      rcases (Size.check_eq_ok_iff _ _).mp broad with ⟨_, rfl⟩
      rcases (Size.check_eq_ok_iff _ _).mp total with ⟨short, rfl⟩
      rcases (Size.check_eq_ok_iff _ _).mp tall with ⟨_, rfl⟩
      rcases (Size.check_eq_ok_iff _ _).mp high with ⟨_, rfl⟩
      cases chosen
      cases made
      refine ⟨rfl, rfl, rfl, Nat.le_add_right _ _, short, ?_, ?_, ?_⟩ <;>
      · rintro panel ⟨⟩
        rfl

/-- The canvas has the size of the window, and it could be allocated. -/
structure Framed (window : Window) (canvas : Canvas) : Prop where
  stride_eq : canvas.stride = window.width
  size_eq : canvas.pixels.size = window.width * window.height
  size_lt : window.width * window.height < Size.pixelLimit

theorem framed_blankCanvas (allocated : window.blankCanvas = .ok canvas) :
    window.Framed canvas := by
  unfold blankCanvas at allocated
  rcases Machine.ok_of_bind allocated with ⟨size, product, allocated⟩
  rcases (Size.check_eq_ok_iff _ _).mp product with ⟨_, rfl⟩
  by_cases small : window.width * window.height < Size.pixelLimit
  · rw [if_pos small] at allocated
    cases allocated
    exact ⟨rfl, Array.size_replicate, small⟩
  · rw [if_neg small] at allocated
    cases allocated

theorem Framed.of_paints {drawn : Canvas} {region : Nat → Prop} {colour : Nat → Colour}
    (framed : window.Framed canvas) (paints : Canvas.Paints canvas drawn region colour) :
    window.Framed drawn :=
  ⟨paints.stride_eq.trans framed.stride_eq, paints.size_eq.trans framed.size_eq, framed.size_lt⟩

/-- The cells of the panel share the height of a window that has enough rows. -/
theorem Shaped.rows_le (shaped : Shaped scale debug window) (shows : window.panel = some panel)
    (shares : Panel.cellsTall ≤ window.height) :
    Panel.cellsTall * panel.cell ≤ window.height := by
  rw [shaped.cell_eq panel shows, Nat.max_eq_left (Nat.div_pos shares (by decide))]
  exact Nat.mul_div_le window.height Panel.cellsTall

/-- The panel of a window fits it.  Either its cells share the height among
them, or they are single pixels and the window is small. -/
theorem Shaped.fits (shaped : Shaped scale debug window) (framed : window.Framed canvas)
    (shows : window.panel = some panel) : Panel.Fits panel window.width where
  positive := by
    rw [shaped.cell_eq panel shows]
    omega
  wide := Nat.le_of_eq (shaped.width_eq panel shows).symm
  stride_lt := shaped.width_lt
  tall := by
    have cell := shaped.cell_eq panel shows
    by_cases shares : Panel.cellsTall ≤ window.height
    · have product := Nat.mul_le_mul_right window.width (shaped.rows_le shows shares)
      have small := framed.size_lt
      rw [Nat.mul_comm window.width] at small
      exact Nat.le_trans product (Nat.le_of_lt (Nat.lt_trans small (by decide)))
    · have single : panel.cell = 1 := by
        rw [cell, Nat.div_eq_of_lt (Nat.lt_of_not_le shares)]
        rfl
      have narrow : window.width ≤ 256 := by
        have origin := shaped.origin_eq panel shows
        have height := shaped.height_eq
        rw [shaped.width_eq panel shows, origin, single]
        rw [height] at shares
        unfold Panel.cellsTall Panel.rows Panel.glyphPitchY Panel.margin Screen.height at shares
        unfold Screen.width Panel.cellsWide Panel.columns Panel.glyphPitchX Panel.margin
        omega
      rw [single]
      exact Nat.le_trans (Nat.mul_le_mul_left _ narrow) (by decide)

/-! ## The screen's columns -/

/-- The colour of a position in the screen's columns. -/
def shade (window : Window) (screen : Screen) (position : Nat) : Colour :=
  pixelColour (screen.pixel (position % window.width / window.scale)
    (position / window.width / window.scale))

/-- A pixel of the magnified screen lies in a square whose side is the scale. -/
theorem shade_of_pixel {screen : Screen} {column row : Nat} (inside : column < window.width) :
    window.shade screen (row * window.width + column) =
      pixelColour (screen.pixel (column / window.scale) (row / window.scale)) := by
  have wide : 0 < window.width := Nat.zero_lt_of_lt inside
  unfold shade
  rw [Nat.mul_comm, Nat.mul_add_mod, Nat.mod_eq_of_lt inside, Nat.mul_add_div wide,
    Nat.div_eq_of_lt inside, Nat.add_zero]

/-- A run of a magnified pixel ends before the canvas does. -/
theorem run_le (shaped : Shaped scale debug window) {x y line : Nat} (column : x < Screen.width)
    (row : y < Screen.height) (inside : line < window.scale) :
    (y * window.scale + line) * window.width + x * window.scale + window.scale ≤
        window.width * window.height ∧
      x * window.scale + window.scale ≤ window.width := by
  have right : (x + 1) * window.scale ≤ Screen.width * window.scale :=
    Nat.mul_le_mul_right _ column
  have below : (y + 1) * window.scale ≤ Screen.height * window.scale :=
    Nat.mul_le_mul_right _ row
  rw [Nat.succ_mul] at right below
  have wide := Nat.le_trans right shaped.screen_le
  have rows : y * window.scale + line + 1 ≤ window.height := by
    rw [shaped.height_eq]
    omega
  have product := Nat.mul_le_mul_right window.width rows
  rw [Nat.succ_mul, Nat.mul_comm window.height] at product
  exact ⟨by omega, wide⟩

theorem paintRun_draws (shaped : Shaped scale debug window) (screen : Screen) {x y line : Nat}
    (column : x < Screen.width) (row : y < Screen.height) (inside : line < window.scale) :
    Canvas.Draws window.width (window.width * window.height)
      (fun canvas => window.paintRun screen x y canvas line)
      (Canvas.InRun ((y * window.scale + line) * window.width + x * window.scale) window.scale)
      (window.shade screen) := by
  rcases run_le shaped column row inside with ⟨bound, wide⟩
  refine (Canvas.fillRun_draws bound _).congr (fun _ => Iff.rfl) ?_
  rintro position ⟨start, finish⟩
  rcases Nat.exists_eq_add_of_le start with ⟨offset, rfl⟩
  have near : offset < window.scale := by omega
  have positive : 0 < window.scale := Nat.zero_lt_of_lt near
  rw [Nat.add_assoc, shade_of_pixel (by omega), Nat.mul_comm x, Nat.mul_comm y,
    Nat.mul_add_div positive, Nat.mul_add_div positive, Nat.div_eq_of_lt near,
    Nat.div_eq_of_lt inside]
  rfl

/-- Painting succeeds and reaches every pixel of the screen's columns. -/
theorem paintScreen_draws (shaped : Shaped scale debug window) (screen : Screen) :
    Canvas.Draws window.width (window.width * window.height) (window.paintScreen screen)
      (Canvas.InRectangle window.width 0 (Screen.width * window.scale) 0 window.height)
      (window.shade screen) := by
  have draws := Canvas.Draws.foldlM _ fun y (row : y ∈ List.range Screen.height) =>
    Canvas.Draws.foldlM _ fun x (column : x ∈ List.range Screen.width) =>
      Canvas.Draws.foldlM _ fun line (inside : line ∈ List.range window.scale) =>
        paintRun_draws shaped screen (List.mem_range.mp column) (List.mem_range.mp row)
          (List.mem_range.mp inside)
  refine draws.congr (fun position => ?_) fun _ _ => rfl
  constructor
  · rintro ⟨y, row, x, column, line, inside, start, finish⟩
    rcases Nat.exists_eq_add_of_le start with ⟨offset, rfl⟩
    have right : (x + 1) * window.scale ≤ Screen.width * window.scale :=
      Nat.mul_le_mul_right _ (List.mem_range.mp column)
    have below : (y + 1) * window.scale ≤ Screen.height * window.scale :=
      Nat.mul_le_mul_right _ (List.mem_range.mp row)
    have last := List.mem_range.mp inside
    have wide := shaped.screen_le
    have height := shaped.height_eq
    rw [Nat.succ_mul] at right below
    exact ⟨y * window.scale + line, x * window.scale + offset, Nat.zero_le _, by omega,
      Nat.zero_le _, by omega, Nat.add_assoc _ _ _⟩
  · rintro ⟨row, column, _, below, _, right, rfl⟩
    have positive : 0 < window.scale := by
      rcases Nat.eq_zero_or_pos window.scale with none | some
      · rw [none] at right
        omega
      · exact some
    have rowSplit := Nat.div_add_mod' row window.scale
    have columnSplit := Nat.div_add_mod' column window.scale
    have offset := Nat.mod_lt column positive
    rw [shaped.height_eq] at below
    refine ⟨row / window.scale, List.mem_range.mpr ?_, column / window.scale,
      List.mem_range.mpr ?_, row % window.scale, List.mem_range.mpr (Nat.mod_lt row positive), ?_⟩
    · exact (Nat.div_lt_iff_lt_mul positive).mpr below
    · exact (Nat.div_lt_iff_lt_mul positive).mpr (by omega)
    · rw [rowSplit]
      unfold Canvas.InRun
      omega

/-! ## What is seen -/

/-- The canvas shows a screen in the screen's columns. -/
def ShowsScreen (window : Window) (screen : Screen) (canvas : Canvas) : Prop :=
  ∀ column row, column < Screen.width * window.scale → row < Screen.height * window.scale →
    canvas.pixel? column row =
      some (if screen.pixel (column / window.scale) (row / window.scale) then Colour.foreground
        else Colour.background)

/-- The canvas shows in the panel's columns what drawing the panel for a machine
puts there, on whatever canvas of the size of the window it is drawn. -/
def ShowsPanel (window : Window) (panel : Panel) (machine : Machine) (canvas : Canvas) : Prop :=
  ∀ other : Canvas, other.stride = window.width → other.pixels.size = window.width * window.height →
    ∃ drawn, panel.draw machine other Colour.foreground Colour.background = .ok drawn ∧
      ∀ column row, Screen.width * window.scale ≤ column → column < window.width →
        row < window.height → canvas.pixel? column row = drawn.pixel? column row

/-- The canvas is the picture of a machine. -/
structure Shows (window : Window) (machine : Machine) (canvas : Canvas) : Prop where
  framed : window.Framed canvas
  screen : window.ShowsScreen machine.screen canvas
  panel : ∀ panel, window.panel = some panel → window.ShowsPanel panel machine canvas

theorem exists_paintScreen (shaped : Shaped scale debug window) (framed : window.Framed canvas)
    (screen : Screen) :
    ∃ painted, window.paintScreen screen canvas = .ok painted ∧ window.Framed painted ∧
      window.ShowsScreen screen painted := by
  rcases paintScreen_draws shaped screen canvas framed.stride_eq framed.size_eq with
    ⟨painted, succeeded, paints⟩
  have size := framed.of_paints paints
  refine ⟨painted, succeeded, size, ?_⟩
  intro column row left above
  have inside : column < window.width := Nat.lt_of_lt_of_le left shaped.screen_le
  have member : Canvas.InRectangle window.width 0 (Screen.width * window.scale) 0 window.height
      (row * window.width + column) :=
    (Canvas.inRectangle_iff inside).mpr
      ⟨⟨Nat.zero_le row, shaped.height_eq ▸ above⟩, Nat.zero_le column, left⟩
  have bound : row * window.width + column < canvas.pixels.size := by
    rw [framed.size_eq]
    exact Canvas.position_lt (shaped.height_eq ▸ above) inside
  rw [painted.pixel?_of_lt (size.stride_eq ▸ inside), size.stride_eq, paints.inside _ member bound,
    shade_of_pixel inside]
  rfl

/-- The panel is drawn over a canvas that shows the screen, and then both are seen. -/
theorem exists_draw (shaped : Shaped scale debug window) (framed : window.Framed canvas)
    {machine : Machine} (seen : window.ShowsScreen machine.screen canvas)
    (shows : window.panel = some panel) :
    ∃ drawn, panel.draw machine canvas Colour.foreground Colour.background = .ok drawn ∧
      window.Shows machine drawn := by
  have fits (other : Canvas) (stride_eq : other.stride = window.width) :
      Panel.Fits panel other.stride := stride_eq ▸ shaped.fits framed shows
  have origin := shaped.origin_eq panel shows
  rcases (fits canvas framed.stride_eq).exists_draw machine Colour.foreground Colour.background with
    ⟨drawn, succeeded, draws⟩
  refine ⟨drawn, succeeded, ?_, ?_, ?_⟩
  · exact ⟨draws.stride_eq.trans framed.stride_eq, draws.size_eq.trans framed.size_eq,
      framed.size_lt⟩
  · intro column row left above
    rw [draws.showsText.left column row (origin ▸ left)]
    exact seen column row left above
  · intro again chosen other stride_eq size_eq
    cases shows.symm.trans chosen
    rcases (fits other stride_eq).exists_draw machine Colour.foreground Colour.background with
      ⟨otherDrawn, otherSucceeded, others⟩
    refine ⟨otherDrawn, otherSucceeded, ?_⟩
    intro column row listed inside above
    refine draws.showsText.agree others.showsText (stride_eq.trans framed.stride_eq.symm)
      (size_eq.trans framed.size_eq.symm) (origin ▸ listed) (framed.stride_eq ▸ inside) ?_
    rw [framed.size_eq, framed.stride_eq, Nat.mul_div_cancel_left _ (Nat.zero_lt_of_lt inside)]
    exact above

/-- The picture of a machine, on a canvas that shows an earlier one. -/
def picture (window : Window) (machine : Machine) (canvas : Canvas) : Except Fault Canvas :=
  (if machine.screen.changed then window.paintScreen machine.screen canvas
    else .ok canvas).bind fun painted =>
      match window.panel with
      | none => .ok painted
      | some panel => panel.draw machine painted Colour.foreground Colour.background

/-- A refresh makes a picture and takes the mark of the screen. -/
theorem refresh_eq (window : Window) (machine : Machine) (canvas : Canvas) :
    window.refresh machine canvas =
      (window.picture machine canvas).map fun picture => (picture, machine.unmarked) := by
  have taken : machine.takeRedraw = (machine.screen.changed, machine.unmarked) := rfl
  unfold refresh picture
  simp only [taken, bind, Except.bind, pure, Except.pure]
  cases machine.screen.changed with
  | true =>
      simp only [if_true]
      cases window.paintScreen machine.screen canvas with
      | error fault => rfl
      | ok painted => cases window.panel <;> rfl
  | false => cases window.panel <;> rfl

/-- The screen is painted when it is due and the panel in any case.  No size on the way is
a fault, and the picture is the one of the machine, if the canvas showed the
screen where it was not due. -/
theorem exists_refresh (shaped : Shaped scale debug window) (framed : window.Framed canvas)
    {machine : Machine}
    (seen : machine.screen.changed = false → window.ShowsScreen machine.screen canvas) :
    ∃ picture, window.refresh machine canvas = .ok (picture, machine.unmarked) ∧
      window.Shows machine picture := by
  have painting : ∃ painted,
      (if machine.screen.changed then window.paintScreen machine.screen canvas else .ok canvas) =
        .ok painted ∧ window.Framed painted ∧ window.ShowsScreen machine.screen painted := by
    cases due : machine.screen.changed with
    | true => exact exists_paintScreen shaped framed machine.screen
    | false => exact ⟨canvas, rfl, framed, seen due⟩
  rcases painting with ⟨painted, succeeded, framed, seen⟩
  rw [refresh_eq, picture, succeeded, Except.bind]
  cases shows : window.panel with
  | none =>
      exact ⟨painted, rfl, framed, seen, fun panel chosen => nomatch shows.symm.trans chosen⟩
  | some panel =>
      rcases exists_draw shaped framed seen shows with ⟨drawn, drew, shown⟩
      exact ⟨drawn, by simp only [drew, Except.map], shown⟩

/-! ## Positions -/

/-- The positions that painting the screen computes. -/
def PaintsAt (window : Window) (position : Nat) : Prop :=
  ∃ y line x, y < Screen.height ∧ line < window.scale ∧ x < Screen.width ∧
    Canvas.InRun ((y * window.scale + line) * window.width + x * window.scale) window.scale position

/-- No position that is computed for the picture of a machine, in a buffer of a
size, lies behind the end of the buffer. -/
structure Inside (window : Window) (machine : Machine) (size : Nat) : Prop where
  screen : ∀ position, window.PaintsAt position → position < size
  columns : ∀ panel, window.panel = some panel → ∀ position,
    panel.InColumns window.width size position → position < size
  text : ∀ panel, window.panel = some panel → ∀ position,
    panel.CoversText window.width (Panel.lines machine) position → position < size

theorem lt_size_of_paintsAt (shaped : Shaped scale debug window) {position : Nat}
    (painted : window.PaintsAt position) : position < window.width * window.height := by
  rcases painted with ⟨y, line, x, row, inside, column, _, finish⟩
  exact Nat.lt_of_lt_of_le finish (run_le shaped column row inside).1

theorem lt_size_of_inColumns {size position : Nat}
    (cleared : panel.InColumns window.width size position) : position < size := by
  rcases cleared with ⟨row, column, _, complete, _, inside, rfl⟩
  exact Canvas.position_lt_of_complete complete (by omega)

/-- From a scale of three on the text fits the height of the window. -/
theorem lt_size_of_coversText (shaped : Shaped scale debug window)
    (shows : window.panel = some panel) (large : 3 ≤ window.scale) {text : List String}
    {position : Nat} (covers : panel.CoversText window.width text position) :
    position < window.width * window.height := by
  rcases covers with ⟨cell, lit, row, column, _, bottom, _, inside, rfl⟩
  have shares : Panel.cellsTall ≤ window.height := by
    rw [shaped.height_eq]
    exact Nat.le_trans (by decide) (Nat.mul_le_mul_left Screen.height large)
  have below : (cell.2 + 1) * panel.cell ≤ Panel.cellsTall * panel.cell :=
    Nat.mul_le_mul_right _ (Panel.litCells_inside lit).2
  have rows := shaped.rows_le shows shares
  rw [Nat.succ_mul] at below
  exact Canvas.position_lt (by omega) (by omega)

theorem Shaped.inside (shaped : Shaped scale debug window) (large : 3 ≤ window.scale)
    (machine : Machine) : window.Inside machine (window.width * window.height) where
  screen _ painted := lt_size_of_paintsAt shaped painted
  columns _ _ _ cleared := lt_size_of_inColumns cleared
  text _ shows _ covers := lt_size_of_coversText shaped shows large covers

/-- At a scale of one the sixth line of the text begins below the last row. -/
theorem not_inside_of_scale_one (shaped : Shaped 1 true window) (machine : Machine) :
    ¬ window.Inside machine (window.width * window.height) := by
  intro inside
  rcases Option.isSome_iff_exists.mp shaped.debug_eq with ⟨panel, shows⟩
  rcases Panel.exists_lit_on_timer_line machine with ⟨column, lit⟩
  have height : window.height = 32 := by
    rw [shaped.height_eq, shaped.scale_eq]
    rfl
  have single : panel.cell = 1 := by
    rw [shaped.cell_eq panel shows, height]
    rfl
  have width := shaped.width_eq panel shows
  have left := (Panel.litCells_inside lit).1
  rw [single, Nat.mul_one] at width
  have sixth : Panel.margin + 5 * Panel.glyphPitchY = 32 := rfl
  rw [sixth] at lit
  have covers : panel.CoversText window.width (Panel.lines machine)
      (32 * window.width + (panel.origin + column)) := by
    refine ⟨_, lit, 32, panel.origin + column, ?_, ?_, ?_, ?_, rfl⟩ <;>
    · simp only [single]
      omega
  have within := inside.text panel shows _ covers
  rw [height, Nat.mul_comm 32] at within
  exact absurd within (Nat.not_lt.mpr (Nat.le_add_right _ _))

end Window
end Chip8
