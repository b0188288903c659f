import Chip8.Canvas

namespace Chip8
namespace Canvas

/-!
# Painting regions of a canvas

Whatever is drawn on a canvas comes to this: the positions of a region get their
colour and all others keep theirs.  The relation `Paints` says so of two
canvases, and `Draws` of an action that may fail: on every canvas of a stride
and a size it succeeds and paints the region.

Regions are sets of positions and not of columns and rows, because that is what
is computed.  Where rows and columns matter, a position is taken apart by the
stride.
-/

/-- The second canvas is the first with the positions of a region coloured. -/
structure Paints (before after : Canvas) (region : Nat → Prop) (colour : Nat → Colour) : Prop where
  stride_eq : after.stride = before.stride
  size_eq : after.pixels.size = before.pixels.size
  inside : ∀ position, region position → position < before.pixels.size →
    after.pixels[position]? = some (colour position)
  outside : ∀ position, ¬ region position → after.pixels[position]? = before.pixels[position]?

variable {before middle after : Canvas} {region further : Nat → Prop} {colour : Nat → Colour}

theorem paints_refl (canvas : Canvas) (colour : Nat → Colour) :
    Paints canvas canvas (fun _ => False) colour :=
  ⟨rfl, rfl, fun _ never => never.elim, fun _ _ => rfl⟩

/-- Two regions painted one after the other, by the same rule for colours, are their union. -/
theorem Paints.trans (first : Paints before middle region colour)
    (second : Paints middle after further colour) :
    Paints before after (fun position => region position ∨ further position) colour where
  stride_eq := second.stride_eq.trans first.stride_eq
  size_eq := second.size_eq.trans first.size_eq
  inside := by
    intro position member bound
    by_cases later : further position
    · exact second.inside position later (first.size_eq ▸ bound)
    · rw [second.outside position later]
      exact first.inside position (member.resolve_right later) bound
  outside := by
    intro position missing
    rcases not_or.mp missing with ⟨notFirst, notSecond⟩
    rw [second.outside position notSecond, first.outside position notFirst]

theorem Paints.congr {other : Nat → Prop} {shade : Nat → Colour}
    (paints : Paints before after region colour) (same : ∀ position, region position ↔ other position)
    (alike : ∀ position, region position → colour position = shade position) :
    Paints before after other shade where
  stride_eq := paints.stride_eq
  size_eq := paints.size_eq
  inside := by
    intro position member bound
    have listed := (same position).mpr member
    rw [paints.inside position listed bound, alike position listed]
  outside := fun position missing => paints.outside position fun member => missing ((same position).mp member)

/-- What is painted determines the canvas. -/
theorem Paints.unique {other : Canvas} (first : Paints before after region colour)
    (second : Paints before other region colour) : after = other := by
  have pixels : after.pixels = other.pixels := by
    apply Array.ext_getElem?
    intro position
    by_cases member : region position
    · by_cases bound : position < before.pixels.size
      · rw [first.inside position member bound, second.inside position member bound]
      · rw [Array.getElem?_eq_none (Nat.le_of_not_lt (first.size_eq ▸ bound)),
          Array.getElem?_eq_none (Nat.le_of_not_lt (second.size_eq ▸ bound))]
    · rw [first.outside position member, second.outside position member]
  have strides := first.stride_eq.trans second.stride_eq.symm
  cases after
  cases other
  cases pixels
  cases strides
  rfl

/-! ## Columns and rows -/

/-- A position determines its column and its row. -/
theorem position_inj {stride row column otherRow otherColumn : Nat} (inside : column < stride)
    (otherInside : otherColumn < stride)
    (equal : row * stride + column = otherRow * stride + otherColumn) :
    row = otherRow ∧ column = otherColumn := by
  have wide : 0 < stride := Nat.lt_of_le_of_lt (Nat.zero_le column) inside
  have rows := congrArg (· / stride) equal
  simp only [Nat.mul_comm _ stride, Nat.mul_add_div wide, Nat.div_eq_of_lt inside,
    Nat.div_eq_of_lt otherInside, Nat.add_zero] at rows
  subst rows
  exact ⟨rfl, Nat.add_left_cancel equal⟩

/-- A position in a row above the last one comes before the end. -/
theorem position_lt {stride height row column : Nat} (above : row < height)
    (inside : column < stride) : row * stride + column < stride * height := by
  have rows := Nat.mul_le_mul_right stride above
  rw [Nat.succ_mul, Nat.mul_comm height] at rows
  omega

/-- A complete row lies in the buffer. -/
theorem position_lt_of_complete {stride size row column : Nat} (complete : row < size / stride)
    (inside : column < stride) : row * stride + column < size :=
  Nat.lt_of_lt_of_le (position_lt complete inside) (Nat.mul_div_le size stride)

theorem pixel?_of_lt (canvas : Canvas) {column : Nat} (inside : column < canvas.stride)
    (row : Nat) : canvas.pixel? column row = canvas.pixels[row * canvas.stride + column]? :=
  if_pos inside

/-! ## Runs and rectangles -/

/-- The positions of a run. -/
def InRun (start count position : Nat) : Prop :=
  start ≤ position ∧ position < start + count

instance (start count position : Nat) : Decidable (InRun start count position) :=
  inferInstanceAs (Decidable (_ ∧ _))

/-- The positions of the columns from `left` to before `right` in the rows from
`top` to before `bottom`.  Columns end at the stride. -/
def InRectangle (stride left right top bottom position : Nat) : Prop :=
  ∃ row column, top ≤ row ∧ row < bottom ∧ left ≤ column ∧ column < min right stride ∧
    position = row * stride + column

theorem inRectangle_iff {stride left right top bottom row column : Nat} (inside : column < stride) :
    InRectangle stride left right top bottom (row * stride + column) ↔
      (top ≤ row ∧ row < bottom) ∧ left ≤ column ∧ column < right := by
  constructor
  · rintro ⟨otherRow, otherColumn, lower, upper, leftmost, rightmost, equal⟩
    rcases position_inj inside (by omega) equal with ⟨rfl, rfl⟩
    exact ⟨⟨lower, upper⟩, leftmost, by omega⟩
  · rintro ⟨⟨lower, upper⟩, leftmost, rightmost⟩
    exact ⟨row, column, lower, upper, leftmost, by omega, rfl⟩

theorem size_colourRun (pixels : Array Colour) (start count : Nat) (colour : Colour) :
    (colourRun pixels start count colour).size = pixels.size := by
  induction count generalizing pixels start with
  | zero => rfl
  | succ count ih => rw [colourRun, ih, Array.size_setIfInBounds]

theorem getElem?_colourRun (pixels : Array Colour) (start count position : Nat) (colour : Colour) :
    (colourRun pixels start count colour)[position]? =
      if InRun start count position ∧ position < pixels.size then some colour
      else pixels[position]? := by
  unfold InRun
  induction count generalizing pixels start with
  | zero => rw [colourRun, if_neg (by omega)]
  | succ count ih =>
      rw [colourRun, ih, Array.size_setIfInBounds, Array.getElem?_setIfInBounds]
      by_cases first : start = position
      · subst first
        by_cases bound : start < pixels.size
        · simp [bound]
        · simp [bound]
      · have shifted : (start + 1 ≤ position ∧ position < start + 1 + count) ↔
            (start ≤ position ∧ position < start + (count + 1)) := by omega
        rw [if_neg first]
        exact ite_congr (propext (and_congr_left fun _ => shifted)) (fun _ => rfl) fun _ => rfl

theorem colourRun_paints (canvas : Canvas) (start count : Nat) (colour : Colour) :
    Paints canvas { canvas with pixels := colourRun canvas.pixels start count colour }
      (InRun start count) fun _ => colour where
  stride_eq := rfl
  size_eq := size_colourRun _ _ _ _
  inside position member bound := by
    rw [getElem?_colourRun, if_pos ⟨member, bound⟩]
  outside position missing := by
    rw [getElem?_colourRun, if_neg fun both => missing both.1]

/-- By induction on the rows: each adds its run. -/
theorem colourRows_paints (canvas : Canvas) (left columns top count : Nat) (colour : Colour) :
    Paints canvas
      { canvas with
        pixels := colourRows canvas.pixels canvas.stride left columns top count colour }
      (fun position => ∃ row, top ≤ row ∧ row < top + count ∧
        InRun (row * canvas.stride + left) columns position)
      fun _ => colour := by
  induction count generalizing canvas top with
  | zero =>
      refine (paints_refl canvas _).congr (fun position => ?_) fun _ _ => rfl
      constructor
      · exact False.elim
      · rintro ⟨row, lower, upper, _⟩
        omega
  | succ count ih =>
      have first := colourRun_paints canvas (top * canvas.stride + left) columns colour
      refine (first.trans (ih _ (top + 1))).congr (fun position => ?_) fun _ _ => rfl
      constructor
      · rintro (now | ⟨row, lower, upper, later⟩)
        · exact ⟨top, Nat.le_refl top, by omega, now⟩
        · exact ⟨row, by omega, by omega, later⟩
      · rintro ⟨row, lower, upper, member⟩
        by_cases now : row = top
        · subst now
          exact Or.inl member
        · exact Or.inr ⟨row, by omega, by omega, member⟩

/-- Rows below the last one of the canvas have no positions, so leaving them out
changes nothing. -/
theorem fillRectangle_paints (canvas : Canvas) (left right top bottom : Nat) (colour : Colour) :
    Paints canvas (canvas.fillRectangle left right top bottom colour)
      (InRectangle canvas.stride left right top bottom) fun _ => colour := by
  have rows := colourRows_paints canvas left (min right canvas.stride - left) top
    (min bottom canvas.rowLimit - top) colour
  refine ⟨rows.stride_eq, rows.size_eq, ?_, ?_⟩
  · rintro position ⟨row, column, lower, upper, leftmost, rightmost, rfl⟩ bound
    have wide : 0 < canvas.stride := by omega
    have within : row ≤ canvas.pixels.size / canvas.stride :=
      (Nat.le_div_iff_mul_le wide).mpr (by omega)
    refine rows.inside _ ⟨row, lower, ?_, ?_⟩ bound
    · unfold rowLimit
      omega
    · unfold InRun
      omega
  · intro position missing
    refine rows.outside position ?_
    rintro ⟨row, lower, upper, start, finish⟩
    exact missing ⟨row, position - row * canvas.stride, lower, by omega, by omega, by omega,
      by omega⟩

/-! ## Actions -/

/-- On every canvas of a stride and a size the action succeeds and paints a region. -/
def Draws (stride size : Nat) (action : Canvas → Except Fault Canvas) (region : Nat → Prop)
    (colour : Nat → Colour) : Prop :=
  ∀ canvas : Canvas, canvas.stride = stride → canvas.pixels.size = size →
    ∃ drawn, action canvas = .ok drawn ∧ Paints canvas drawn region colour

variable {stride size : Nat} {action : Canvas → Except Fault Canvas}

theorem Draws.congr {other : Nat → Prop} {shade : Nat → Colour}
    (draws : Draws stride size action region colour)
    (same : ∀ position, region position ↔ other position)
    (alike : ∀ position, region position → colour position = shade position) :
    Draws stride size action other shade := by
  intro canvas strideEq sizeEq
  rcases draws canvas strideEq sizeEq with ⟨drawn, succeeded, paints⟩
  exact ⟨drawn, succeeded, paints.congr same alike⟩

theorem fillRun_draws {start count : Nat} (fits : start + count ≤ size) (colour : Colour) :
    Draws stride size (fun canvas => canvas.fillRun start count colour) (InRun start count)
      fun _ => colour := by
  intro canvas strideEq sizeEq
  exact ⟨_, if_pos (sizeEq ▸ fits), colourRun_paints canvas start count colour⟩

/-- By induction on the list: actions performed in order paint the union of their regions. -/
theorem Draws.foldlM {α : Type} {draw : Canvas → α → Except Fault Canvas} {list : List α}
    (part : α → Nat → Prop)
    (each : ∀ item ∈ list, Draws stride size (fun canvas => draw canvas item) (part item) colour) :
    Draws stride size (fun canvas => list.foldlM draw canvas)
      (fun position => ∃ item ∈ list, part item position) colour := by
  induction list with
  | nil =>
      intro canvas strideEq sizeEq
      refine ⟨canvas, rfl, (paints_refl canvas colour).congr (fun position => ?_) fun _ _ => rfl⟩
      simp
  | cons item rest ih =>
      intro canvas strideEq sizeEq
      rcases each item (.head _) canvas strideEq sizeEq with ⟨middle, succeeded, first⟩
      rcases ih (fun later member => each later (.tail _ member)) middle
        (first.stride_eq.trans strideEq) (first.size_eq.trans sizeEq) with ⟨drawn, finished, others⟩
      refine ⟨drawn, ?_, (first.trans others).congr (fun position => ?_) fun _ _ => rfl⟩
      · simp only [List.foldlM_cons, succeeded]
        exact finished
      · simp

/-- On every canvas of a stride and a size the action is a fault. -/
def Fails (stride size : Nat) (action : Canvas → Except Fault Canvas) (fault : Fault) : Prop :=
  ∀ canvas : Canvas, canvas.stride = stride → canvas.pixels.size = size →
    action canvas = .error fault

/-- By induction on the list: actions performed in order come as far as the first that fails. -/
theorem Fails.foldlM {α : Type} {draw : Canvas → α → Except Fault Canvas} {list : List α}
    {fault : Fault} (part : α → Nat → Prop)
    (each : ∀ item ∈ list, Draws stride size (fun canvas => draw canvas item) (part item) colour ∨
      Fails stride size (fun canvas => draw canvas item) fault)
    (one : ∃ item ∈ list, Fails stride size (fun canvas => draw canvas item) fault) :
    Fails stride size (fun canvas => list.foldlM draw canvas) fault := by
  induction list with
  | nil => exact absurd one (by simp)
  | cons item rest ih =>
      intro canvas strideEq sizeEq
      rcases each item (.head _) with draws | fails
      · rcases draws canvas strideEq sizeEq with ⟨middle, succeeded, first⟩
        have later : ∃ item ∈ rest, Fails stride size (fun canvas => draw canvas item) fault := by
          rcases one with ⟨failing, member, fails⟩
          rcases List.mem_cons.mp member with rfl | member
          · exact nomatch succeeded.symm.trans (fails canvas strideEq sizeEq)
          · exact ⟨failing, member, fails⟩
        simp only [List.foldlM_cons, succeeded]
        exact ih (fun other member => each other (.tail _ member)) later middle
          (first.stride_eq.trans strideEq) (first.size_eq.trans sizeEq)
      · simp only [List.foldlM_cons, fails canvas strideEq sizeEq]
        rfl

end Canvas
end Chip8
