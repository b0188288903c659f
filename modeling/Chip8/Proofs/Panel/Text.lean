import Chip8.Proofs.Hex.Reading
import Chip8.Proofs.Machine.Invariant
import Chip8.Proofs.Memory.Ring
import Chip8.Proofs.Panel.Pixels

namespace Chip8

/-!
# The text of the debug panel

Each line of the text is a row of numbers, and each number has a least width.  What
the numbers are does not depend on how they are spelt, so the text is treated as
rows of fields, and a reader that takes the words of the lines for numbers gets the
fields back.

A field can be wider than it is asked to be.  That all of them fit the grid of the
panel is a fact about reachable machines: their program counter has three digits,
and at most sixteen return addresses and ten executed instructions are there to be
shown.
-/

namespace Panel

open Machine

/-! ## Pairs -/

/-- The items in pairs, oldest first.  The oldest is alone if their number is odd. -/
def pairs {α : Type} : (newestFirst : List α) → List (List α)
  | [] => []
  | [oldest] => [[oldest]]
  | newer :: older :: rest => pairs rest ++ [[older, newer]]

theorem pairLines_eq (words : List String) : pairLines words = (pairs words).map spaced := by
  fun_induction pairLines words with
  | case1 => rfl
  | case2 oldest =>
      rw [pairs, List.map_singleton, spaced, String.intercalate_singleton]
  | case3 newer older rest ih => rw [pairs, List.map_append, ih, List.map_singleton]

theorem pairs_map {α β : Type} (f : α → β) (items : List α) :
    pairs (items.map f) = (pairs items).map (List.map f) := by
  fun_induction pairs items with
  | case1 => rfl
  | case2 oldest => rfl
  | case3 newer older rest ih =>
      rw [List.map_cons, List.map_cons, pairs, ih, List.map_append]
      rfl

theorem flatten_pairs {α : Type} (items : List α) : (pairs items).flatten = items.reverse := by
  fun_induction pairs items with
  | case1 => rfl
  | case2 oldest => rfl
  | case3 newer older rest ih =>
      rw [List.flatten_append, ih, List.reverse_cons, List.reverse_cons, List.append_assoc]
      rfl

theorem length_pairs {α : Type} (items : List α) :
    (pairs items).length = (items.length + 1) / 2 := by
  fun_induction pairs items with
  | case1 => simp
  | case2 oldest => simp
  | case3 newer older rest ih =>
      rw [List.length_append, ih, List.length_singleton, List.length_cons, List.length_cons]
      omega

theorem length_of_mem_pairs {α : Type} {items row : List α} (member : row ∈ pairs items) :
    1 ≤ row.length ∧ row.length ≤ 2 := by
  fun_induction pairs items with
  | case1 => cases member
  | case2 oldest =>
      rw [List.mem_singleton.mp member]
      exact ⟨Nat.le_refl 1, Nat.le_succ 1⟩
  | case3 newer older rest ih =>
      rcases List.mem_append.mp member with earlier | last
      · exact ih earlier
      · rw [List.mem_singleton.mp last]
        exact ⟨Nat.le_succ 1, Nat.le_refl 2⟩

/-- An even number of newer items is paired without the others. -/
theorem pairs_append {α : Type} {newer : List α} (even : newer.length % 2 = 0) (older : List α) :
    pairs (newer ++ older) = pairs older ++ pairs newer := by
  fun_induction pairs newer with
  | case1 => rw [List.nil_append, List.append_nil]
  | case2 item => cases even
  | case3 second first rest ih =>
      have shorter : rest.length % 2 = 0 := by
        rw [List.length_cons, List.length_cons] at even
        omega
      rw [List.cons_append, List.cons_append, pairs, ih shorter, List.append_assoc]

/-! ## Fields -/

/-- A number of the text, with the least width it is written in. -/
structure Field where
  width : Nat
  number : Nat

def Field.text (field : Field) : String :=
  Hex.upper field.width field.number

def rowText (row : List Field) : String :=
  spaced (row.map Field.text)

def positionFields (machine : Machine) : List Field :=
  [⟨3, machine.pc.toNat⟩, ⟨4, machine.index.toNat⟩, ⟨1, machine.stack.depth⟩]

def registerFields (registers : Registers) (line : Nat) : List Field :=
  ((List.finRange 16).filter fun x => x.val / 4 = line).map fun x =>
    ⟨2, (registers.get x).toNat⟩

def timerFields (machine : Machine) : List Field :=
  [⟨2, machine.delay.count.toNat⟩, ⟨2, machine.sound.count.toNat⟩]

def opcodeField (executed : Executed) : Field :=
  ⟨4, executed.opcode.toNat⟩

/-- What the lines of a machine show. -/
def fields (machine : Machine) : List (List Field) :=
  [positionFields machine] ++ (List.range 4).map (registerFields machine.registers) ++
    [timerFields machine] ++ pairs (machine.recent.map opcodeField)

theorem registerLine_eq (registers : Registers) (line : Nat) :
    registerLine registers line = rowText (registerFields registers line) := by
  rw [registerLine, rowText, registerFields, List.map_map, ← List.filterMap_eq_map,
    List.filterMap_filter]
  simp only [decide_eq_true_eq]
  rfl

theorem lines_eq (machine : Machine) : lines machine = (fields machine).map rowText := by
  have words : (machine.recent.map fun executed => Hex.upper 4 executed.opcode.toNat) =
      (machine.recent.map opcodeField).map Field.text := by
    rw [List.map_map]
    rfl
  have registers : registerLine machine.registers =
      rowText ∘ registerFields machine.registers := by
    funext line
    exact registerLine_eq machine.registers line
  have history : pairLines (machine.recent.map fun executed => Hex.upper 4 executed.opcode.toNat) =
      (pairs (machine.recent.map opcodeField)).map rowText := by
    rw [words, pairLines_eq, pairs_map, List.map_map]
    rfl
  rw [lines, fields, List.map_append, List.map_append, List.map_append, List.map_map, history,
    registers]
  rfl

theorem length_registerFields (registers : Registers) {line : Nat} (inside : line < 4) :
    (registerFields registers line).length = 4 := by
  have four : ∀ line < 4, ((List.finRange 16).filter fun x => x.val / 4 = line).length = 4 := by
    decide
  rw [registerFields, List.length_map, four line inside]

/-- The register lines show every register once and in order. -/
theorem flatMap_registerFields (registers : Registers) :
    (List.range 4).flatMap (registerFields registers) =
      (List.finRange 16).map fun x => ⟨2, (registers.get x).toNat⟩ := by
  have order : ((List.range 4).flatMap fun line =>
      (List.finRange 16).filter fun x => x.val / 4 = line) = List.finRange 16 := by
    decide
  rw [← order, List.map_flatMap]
  rfl

/-- A property of all fields of a machine, row by row. -/
theorem forall_fields {P : List Field → Prop} {machine : Machine}
    (position : P (positionFields machine))
    (registers : ∀ line < 4, P (registerFields machine.registers line))
    (timers : P (timerFields machine))
    (opcodes : ∀ row ∈ pairs (machine.recent.map opcodeField), P row) :
    ∀ row ∈ fields machine, P row := by
  intro row member
  rcases List.mem_append.mp member with member | listed
  · rcases List.mem_append.mp member with member | listed
    · rcases List.mem_append.mp member with listed | listed
      · exact List.mem_singleton.mp listed ▸ position
      · rcases List.mem_map.mp listed with ⟨line, inside, rfl⟩
        exact registers line (List.mem_range.mp inside)
    · exact List.mem_singleton.mp listed ▸ timers
  · exact opcodes row listed

theorem flatten_fields (machine : Machine) :
    (fields machine).flatten =
      positionFields machine ++
        (((List.finRange 16).map fun x => ⟨2, (machine.registers.get x).toNat⟩) ++
          (timerFields machine ++ machine.history.map opcodeField)) := by
  rw [fields, List.flatten_append, List.flatten_append, List.flatten_append, flatten_pairs,
    ← List.map_reverse, ← List.flatMap_def, flatMap_registerFields, List.append_assoc,
    List.append_assoc]
  rfl

/-! ## A reader -/

/-- The numbers that the words of a line spell. -/
def readLine (line : String) : Option (List Nat) :=
  (line.toList.splitOn ' ').mapM Hex.number?

/-- The numbers of all lines. -/
def readNumbers (text : List String) : Option (List Nat) :=
  (text.mapM readLine).map List.flatten

/-- What the panel tells of a machine. -/
structure Shown where
  pc : UInt16
  index : UInt16
  depth : Nat
  registers : Registers
  delay : UInt8
  sound : UInt8
  /-- The opcodes of the history in the order in which they were executed. -/
  opcodes : List Opcode

def Shown.ofMachine (machine : Machine) : Shown where
  pc := machine.pc
  index := machine.index
  depth := machine.stack.depth
  registers := machine.registers
  delay := machine.delay.count
  sound := machine.sound.count
  opcodes := machine.history.map Executed.opcode

def Shown.ofNumbers? : List Nat → Option Shown
  | pc :: index :: depth :: numbers =>
      match numbers.drop 16 with
      | delay :: sound :: opcodes => some {
          pc := UInt16.ofNat pc
          index := UInt16.ofNat index
          depth
          registers := ⟨Vector.ofFn fun x => UInt8.ofNat (numbers.getD x.val 0)⟩
          delay := UInt8.ofNat delay
          sound := UInt8.ofNat sound
          opcodes := opcodes.map UInt16.ofNat }
      | _ => none
  | _ => none

/-- What a text tells of the machine it was made from. -/
def read? (text : List String) : Option Shown :=
  (readNumbers text).bind Shown.ofNumbers?

/-- A space is no digit, so a line has the fields of its row as words. -/
theorem readLine_rowText {row : List Field} (some_fields : row ≠ []) :
    readLine (rowText row) = some (row.map Field.number) := by
  have words : (rowText row).toList.splitOn ' ' = row.map fun field => field.text.toList := by
    rw [rowText, spaced, String.toList_intercalate, List.map_map]
    apply List.splitOn_intercalate
    · intro word member blank
      rcases List.mem_map.mp member with ⟨field, _, rfl⟩
      exact absurd (Hex.mem_capitals_of_mem_upper blank) (by decide)
    · exact mt List.map_eq_nil_iff.mp some_fields
  rw [readLine, words, List.mapM_map]
  apply mapM_eq_some
  intro field _
  exact Hex.number?_upper field.width field.number

theorem readNumbers_lines (machine : Machine) :
    readNumbers (lines machine) = some ((fields machine).flatten.map Field.number) := by
  have some_fields : ∀ row ∈ fields machine, row ≠ [] := by
    apply forall_fields
    case position => exact List.cons_ne_nil _ _
    case registers =>
      intro line inside
      apply List.ne_nil_of_length_pos
      rw [length_registerFields _ inside]
      decide
    case timers => exact List.cons_ne_nil _ _
    case opcodes =>
      intro row listed
      exact List.ne_nil_of_length_pos (length_of_mem_pairs listed).1
  have read : (fields machine).mapM (readLine ∘ rowText) =
      some ((fields machine).map (List.map Field.number)) :=
    mapM_eq_some fun row member => readLine_rowText (some_fields row member)
  rw [readNumbers, lines_eq, List.mapM_map, read, List.map_flatten]
  rfl

theorem ofFn_registers (registers : Registers) (later : List Nat) :
    (Vector.ofFn fun x : Reg => UInt8.ofNat ((((List.finRange 16).map fun x =>
      (registers.get x).toNat) ++ later).getD x.val 0)) = registers.values := by
  apply Vector.ext
  intro number inside
  have listed : number < (List.finRange 16).length := by rwa [List.length_finRange]
  rw [Vector.getElem_ofFn, List.getD_eq_getElem?_getD,
    List.getElem?_append_left (by rwa [List.length_map]), List.getElem?_map,
    List.getElem?_eq_getElem listed, List.getElem_finRange]
  exact UInt8.ofNat_toNat

/-- The lines of a machine tell all that the panel is there to show. -/
theorem read?_lines (machine : Machine) :
    read? (lines machine) = some (Shown.ofMachine machine) := by
  let values := (List.finRange 16).map fun x => (machine.registers.get x).toNat
  let later := machine.delay.count.toNat :: machine.sound.count.toNat ::
    machine.history.map fun executed => executed.opcode.toNat
  have count : values.length = 16 := by
    rw [List.length_map, List.length_finRange]
  have numbers : (fields machine).flatten.map Field.number =
      machine.pc.toNat :: machine.index.toNat :: machine.stack.depth :: (values ++ later) := by
    rw [flatten_fields]
    simp only [List.map_append, List.map_map, values, later]
    rfl
  have behind : (values ++ later).drop 16 = later := List.drop_left' count
  have opcodes : (machine.history.map fun executed => executed.opcode.toNat).map UInt16.ofNat =
      machine.history.map Executed.opcode := by
    rw [List.map_map]
    apply List.map_congr_left
    intro executed _
    exact UInt16.ofNat_toNat
  rw [read?, readNumbers_lines, numbers, Option.bind_some, Shown.ofNumbers?, behind]
  simp only [later, values, ofFn_registers, opcodes, UInt16.ofNat_toNat, UInt8.ofNat_toNat,
    Shown.ofMachine]

/-! ## The grid -/

theorem length_rowText_cons_le (field : Field) (rest : List Field) :
    (rowText (field :: rest)).length ≤ field.text.length + 1 + (rowText rest).length := by
  cases rest with
  | nil =>
      rw [rowText, spaced, List.map_singleton, String.intercalate_singleton]
      omega
  | cons next later =>
      rw [rowText, spaced, List.map_cons, List.map_cons, String.intercalate_cons_cons,
        String.length_append, String.length_append]
      exact Nat.le_refl _

/-- A row takes no more characters than its fields with a space behind each. -/
theorem length_rowText_le {row : List Field} {most : Nat}
    (short : ∀ field ∈ row, field.text.length ≤ most) :
    (rowText row).length ≤ row.length * (most + 1) := by
  induction row with
  | nil => exact Nat.zero_le _
  | cons field rest ih =>
      have first := short field (.head _)
      have later := ih fun other member => short other (.tail _ member)
      have joined := length_rowText_cons_le field rest
      rw [List.length_cons, Nat.succ_mul]
      omega

theorem length_text_byte (byte : UInt8) : (Field.text ⟨2, byte.toNat⟩).length ≤ 2 :=
  Hex.length_upper_le (Nat.le_refl 2) (by decide) byte.toNat_lt

theorem length_text_word (word : UInt16) : (Field.text ⟨4, word.toNat⟩).length ≤ 4 :=
  Hex.length_upper_le (Nat.le_refl 4) (by decide) word.toNat_lt

theorem length_lines (machine : Machine) :
    (lines machine).length = 6 + (machine.history.length + 1) / 2 := by
  rw [lines_eq, List.length_map, fields, List.length_append, List.length_append,
    List.length_append, length_pairs, List.length_map, history, List.length_reverse,
    List.length_map, List.length_range]
  rfl

theorem length_registerRow_le (registers : Registers) {line : Nat} (inside : line < 4) :
    (rowText (registerFields registers line)).length ≤ 12 := by
  have short : ∀ field ∈ registerFields registers line, field.text.length ≤ 2 := by
    intro field member
    rcases List.mem_map.mp member with ⟨x, _, rfl⟩
    exact length_text_byte _
  have joined := length_rowText_le short
  rwa [length_registerFields registers inside] at joined

theorem length_opcodeRow_le {recent : List Executed} {row : List Field}
    (listed : row ∈ pairs (recent.map opcodeField)) :
    (rowText row).length ≤ 10 := by
  have short : ∀ field ∈ row, field.text.length ≤ 4 := by
    intro field member
    have remembered := List.mem_flatten.mpr ⟨row, listed, member⟩
    rw [flatten_pairs, List.mem_reverse] at remembered
    rcases List.mem_map.mp remembered with ⟨executed, _, rfl⟩
    exact length_text_word _
  have joined := length_rowText_le short
  have two := (length_of_mem_pairs listed).2
  omega

/-- The program counter of a sound machine has three digits and its stack depth has
at most two. -/
theorem length_line_le {machine : Machine} (sound : Sound machine) :
    ∀ line ∈ lines machine, line.length ≤ 12 := by
  have rows : ∀ row ∈ fields machine, (rowText row).length ≤ 12 := by
    apply forall_fields
    case position =>
      have pc : (Field.text ⟨3, machine.pc.toNat⟩).length ≤ 3 :=
        Hex.length_upper_le (Nat.le_refl 3) (by decide)
          (Nat.lt_of_le_of_lt sound.start.2 (by decide))
      have depth : (Field.text ⟨1, machine.stack.depth⟩).length ≤ 2 :=
        Hex.length_upper_le (Nat.le_succ 1) (by decide)
          (Nat.lt_of_le_of_lt sound.depth_le (by decide))
      have index := length_text_word machine.index
      have first := length_rowText_cons_le ⟨3, machine.pc.toNat⟩
        [⟨4, machine.index.toNat⟩, ⟨1, machine.stack.depth⟩]
      have second := length_rowText_cons_le ⟨4, machine.index.toNat⟩ [⟨1, machine.stack.depth⟩]
      have third := length_rowText_cons_le ⟨1, machine.stack.depth⟩ []
      have nothing : (rowText []).length = 0 := rfl
      rw [positionFields]
      omega
    case registers =>
      intro line inside
      exact length_registerRow_le machine.registers inside
    case timers =>
      have delay := length_text_byte machine.delay.count
      have sound := length_text_byte machine.sound.count
      have first := length_rowText_cons_le ⟨2, machine.delay.count.toNat⟩
        [⟨2, machine.sound.count.toNat⟩]
      have second := length_rowText_cons_le ⟨2, machine.sound.count.toNat⟩ []
      have nothing : (rowText []).length = 0 := rfl
      rw [timerFields]
      omega
    case opcodes =>
      intro row listed
      exact Nat.le_trans (length_opcodeRow_le listed) (by decide)
  intro line member
  rw [lines_eq] at member
  rcases List.mem_map.mp member with ⟨row, shown, rfl⟩
  exact rows row shown

/-- From a scale of three on the whole grid lies inside the panel and the window. -/
theorem forScale_holds_grid {scale : Nat} (large : 3 ≤ scale) (small : 64 * scale < Size.limit)
    (origin : Nat) : ∃ panel width,
      forScale scale origin = .ok panel ∧ panel.width = .ok width ∧
        ∀ row column gx gy, row < 11 → column < 12 → gx < 4 → gy < 5 →
          (2 + 5 * column + gx + 1) * panel.cell ≤ width ∧
            (2 + 6 * row + gy + 1) * panel.cell ≤ 32 * scale := by
  have cell : max 1 (32 * scale / 70) = 32 * scale / 70 := by omega
  have sized := forScale_of_lt (show 32 * scale < Size.limit by omega) origin
  rw [cell] at sized
  refine ⟨_, _, sized, Size.mul_of_lt ?_, ?_⟩
  · change 64 * (32 * scale / 70) < _
    omega
  intro row column gx gy inRows inColumns across down
  constructor
  · apply Nat.mul_le_mul_right
    change _ ≤ 64
    omega
  · have tall : (2 + 6 * row + gy + 1) * (32 * scale / 70) ≤ 70 * (32 * scale / 70) :=
      Nat.mul_le_mul_right _ (by omega)
    exact Nat.le_trans tall (Nat.mul_div_le _ _)

/-! ## The history -/

/-- The lines from the seventh on show the history: two opcodes to a line, counted
from the newest, and if one is left over, it is the oldest. -/
structure PairsHistory (machine : Machine) (text : List String) : Prop where
  together : ∀ earlier older newer later,
    machine.history = earlier ++ older :: newer :: later → later.length % 2 = 0 →
      text[6 + (earlier.length + 1) / 2]? =
        some (Hex.fixedUpper 4 older.opcode.toNat ++ " " ++ Hex.fixedUpper 4 newer.opcode.toNat)
  alone : ∀ oldest later, machine.history = oldest :: later → later.length % 2 = 0 →
    text[6]? = some (Hex.fixedUpper 4 oldest.opcode.toNat)
  last : ∀ earlier older newer, machine.history = earlier ++ [older, newer] →
    text.getLast? =
      some (Hex.fixedUpper 4 older.opcode.toNat ++ " " ++ Hex.fixedUpper 4 newer.opcode.toNat)

theorem recent_eq_reverse_history (machine : Machine) :
    machine.recent = machine.history.reverse :=
  (List.reverse_reverse machine.recent).symm

theorem getElem?_lines_add_six (machine : Machine) (number : Nat) :
    (lines machine)[6 + number]? =
      (pairs machine.recent)[number]?.map fun row =>
        spaced (row.map fun executed => Hex.fixedUpper 4 executed.opcode.toNat) := by
  have digits : (fun executed : Executed => Hex.upper 4 executed.opcode.toNat) =
      fun executed => Hex.fixedUpper 4 executed.opcode.toNat := by
    funext executed
    exact Hex.upper_eq_fixedUpper (by decide) executed.opcode.toNat_lt
  rw [lines, List.getElem?_append_right (Nat.le_add_right 6 number), digits, pairLines_eq,
    pairs_map, List.map_map, List.getElem?_map]
  change (pairs machine.recent)[6 + number - 6]?.map _ = _
  rw [Nat.add_sub_cancel_left]
  rfl

/-- An even number of newer instructions does not change how the others are paired. -/
theorem getElem?_lines_of_together {machine : Machine} {earlier later : List Executed}
    {older newer : Executed} (history : machine.history = earlier ++ older :: newer :: later)
    (even : later.length % 2 = 0) :
    (lines machine)[6 + (earlier.length + 1) / 2]? =
      some (Hex.fixedUpper 4 older.opcode.toNat ++ " " ++
        Hex.fixedUpper 4 newer.opcode.toNat) := by
  have recent : machine.recent = later.reverse ++ newer :: older :: earlier.reverse := by
    rw [recent_eq_reverse_history, history]
    simp
  have paired : pairs machine.recent =
      pairs earlier.reverse ++ [older, newer] :: pairs later.reverse := by
    rw [recent, pairs_append (by rwa [List.length_reverse]), pairs, List.append_assoc]
    rfl
  have place : (earlier.length + 1) / 2 = (pairs earlier.reverse).length := by
    rw [length_pairs, List.length_reverse]
  rw [getElem?_lines_add_six, paired, place, List.getElem?_append_right (Nat.le_refl _),
    Nat.sub_self]
  rfl

theorem pairsHistory_lines (machine : Machine) : PairsHistory machine (lines machine) where
  together earlier older newer later history even :=
    getElem?_lines_of_together history even
  alone oldest later history even := by
    have recent : machine.recent = later.reverse ++ [oldest] := by
      rw [recent_eq_reverse_history, history, List.reverse_cons]
    rw [← Nat.add_zero 6, getElem?_lines_add_six, recent,
      pairs_append (by rwa [List.length_reverse])]
    rfl
  last earlier older newer history := by
    have count := length_lines machine
    rw [history, List.length_append] at count
    change (lines machine).length = 6 + (earlier.length + 2 + 1) / 2 at count
    have place : (lines machine).length - 1 = 6 + (earlier.length + 1) / 2 := by omega
    rw [List.getLast?_eq_getElem?, place, getElem?_lines_of_together history rfl]

/-- **The text is complete and never cut off.** On a reachable machine the panel has
six lines and one for every two instructions of the history, rounded up; all of them
fit the eleven rows and twelve columns that are drawn and, from a scale of three on,
the panel and the window.  The history is paired from the newest instruction on.  A
reader gets everything back, so machines with the same text agree on it. -/
theorem panel_text_is_complete {noise : Noise} {machine : Machine}
    (reachable : Reachable noise machine) :
    (lines machine).length = 6 + (machine.history.length + 1) / 2 ∧
      (lines machine).length ≤ 11 ∧ (∀ line ∈ lines machine, line.length ≤ 12) ∧
      (lines machine).take rows = lines machine ∧
      (∀ line ∈ lines machine, line.toList.take columns = line.toList) ∧
      (∀ scale origin, 3 ≤ scale → 64 * scale < Size.limit → ∃ panel width,
        forScale scale origin = .ok panel ∧ panel.width = .ok width ∧
          ∀ row line column gx gy, (lines machine)[row]? = some line → column < line.length →
            gx < 4 → gy < 5 →
              (2 + 5 * column + gx + 1) * panel.cell ≤ width ∧
                (2 + 6 * row + gy + 1) * panel.cell ≤ 32 * scale) ∧
      PairsHistory machine (lines machine) ∧
      read? (lines machine) = some (Shown.ofMachine machine) ∧
      ∀ otherNoise other, Reachable otherNoise other → lines other = lines machine →
        Shown.ofMachine other = Shown.ofMachine machine := by
  have sound : Sound machine := reachable_sound reachable
  have count := length_lines machine
  have low : (lines machine).length ≤ 11 := by
    have remembered := sound.history_length_le
    omega
  have narrow := length_line_le sound
  refine ⟨count, low, narrow, List.take_of_length_le low, ?_, ?_, pairsHistory_lines machine,
    read?_lines machine, ?_⟩
  · intro line member
    apply List.take_of_length_le
    rw [String.length_toList]
    exact narrow line member
  · intro scale origin large small
    rcases forScale_holds_grid large small origin with ⟨panel, width, sized, wide, inside⟩
    refine ⟨panel, width, sized, wide, ?_⟩
    intro row line column gx gy shown listed across down
    rcases List.getElem?_eq_some_iff.mp shown with ⟨below, found⟩
    have inColumns := narrow line (found ▸ List.getElem_mem below)
    exact inside row column gx gy (Nat.lt_of_lt_of_le below low)
      (Nat.lt_of_lt_of_le listed inColumns) across down
  · intro otherNoise other _ same
    have told := read?_lines other
    rw [same, read?_lines machine] at told
    exact (Option.some.inj told).symm

/-- After one step of a program the panel has a seventh line, with one opcode. -/
theorem one_opcode_stands_alone : ∃ machine shown, Reachable (fun _ => 0) machine ∧
    (lines machine).length = 7 ∧ (lines machine)[6]? = some "60AB" ∧
    read? (lines machine) = some shown ∧ shown.pc = 0x202 ∧ shown.registers.get 0 = 0xAB := by
  have fits : Rom.size ⟨#[0x60, 0xAB]⟩ ≤ Memory.romLimit := by decide
  rcases Memory.initial.exists_load fits with ⟨memory, copied⟩
  let before : Machine := { initial with memory }
  have word : before.memory.word before.pc = 0x60AB :=
    @Memory.word_opcode _ _ copied 0 (by decide)
  have permits : Permits before ⟨0x60AB, .setByte 0 0xAB, some (programStart + 2)⟩ :=
    { start := show IsStart programStart by decide
      opcode_eq := word.symm
      decoded := rfl
      course := ⟨.next, rfl, rfl⟩
      target_start := by
        intro target selected
        cases selected
        decide }
  have reachable := (reachable_of_load (fun _ => 0) copied).perform .step
  rw [Operation.perform, ofResult_snd, step_of_permits _ rfl permits] at reachable
  rcases panel_text_is_complete reachable with ⟨count, _, _, _, _, _, history, told, _⟩
  have seven : 6 + (1 + 1) / 2 = 7 := by decide
  exact ⟨_, _, reachable, Eq.trans count seven, history.alone ⟨programStart, 0x60AB⟩ [] rfl rfl,
    told, rfl, rfl⟩

end Panel
end Chip8
