import Chip8.Listing
import Chip8.Proofs.Hex.FixedWidth

namespace Chip8

/-!
# Written listings

A writer without bounds takes every piece in full, so it ends up with the pieces
one after the other.  A text of printable characters has no newline inside, and
so the lines that went into a listing are found again between its newlines.  The
digits of a number are printable and not blank.
-/

/-! ## Writers without bounds -/

namespace Writer

theorem writeAll_nil (writer : Writer) : writeAll [] writer = .ok () writer := by
  rw [writeAll]
  rfl

theorem writeAll_unbounded (bytes : List UInt8) (written : Array UInt8) :
    writeAll bytes ⟨none, written⟩ = .ok () ⟨none, written ++ bytes⟩ := by
  cases bytes with
  | nil => exact writeAll_nil _
  | cons byte rest =>
      rw [writeAll]
      exact writeAll_nil ⟨none, written ++ (byte :: rest)⟩

theorem writePieces_cons (piece : List UInt8) (rest : List (List UInt8)) (writer : Writer) :
    writePieces (piece :: rest) writer =
      match writeAll piece writer with
      | .ok _ reached => writePieces rest reached
      | .error failure reached => .error failure reached := by
  change EStateM.bind (writeAll piece) (fun _ => writePieces rest) writer = _
  unfold EStateM.bind
  cases writeAll piece writer <;> rfl

theorem appendList_assoc (written : Array UInt8) (first second : List UInt8) :
    written ++ first ++ second = written ++ (first ++ second) := by
  apply Array.toList_inj.mp
  simp only [Array.toList_appendList, List.append_assoc]

theorem writePieces_unbounded (pieces : List (List UInt8)) (written : Array UInt8) :
    writePieces pieces ⟨none, written⟩ = .ok () ⟨none, written ++ pieces.flatten⟩ := by
  induction pieces generalizing written with
  | nil => rfl
  | cons piece rest ih =>
      rw [writePieces_cons, writeAll_unbounded, List.flatten_cons, ← appendList_assoc]
      exact ih (written ++ piece)

end Writer

namespace Listing

/-! ## Lines -/

/-- The byte that ends a line. -/
def newline : UInt8 := 10

/-- The lines of written text: what stands before each newline, and what stands
behind the last. -/
def linesOf (written : Array UInt8) : List (List UInt8) :=
  written.toList.splitOn newline

/-- The text has no control characters and nothing that is not ASCII. -/
def IsPlain (text : String) : Prop :=
  ∀ c ∈ text.toList, 32 ≤ c.toNat ∧ c.toNat ≤ 126

instance : DecidablePred IsPlain :=
  fun text => List.decidableBAll _ text.toList

@[simp] theorem isPlain_append {first second : String} :
    IsPlain (first ++ second) ↔ IsPlain first ∧ IsPlain second := by
  simp only [IsPlain, String.toList_append, List.forall_mem_append]

/-- A byte below all characters of an ASCII text does not occur in its bytes. -/
theorem not_mem_asciiBytes {text : String} {byte : UInt8}
    (apart : ∀ c ∈ text.toList, byte.toNat < c.toNat ∧ c.toNat ≤ 126) :
    byte ∉ asciiBytes text := by
  intro member
  rcases List.mem_map.mp member with ⟨c, listed, rfl⟩
  rcases apart c listed with ⟨above, below⟩
  rw [UInt8.toNat_ofNat', Nat.mod_eq_of_lt (by omega)] at above
  exact Nat.lt_irrefl _ above

theorem newline_not_mem_of_isPlain {text : String} (plain : IsPlain text) :
    newline ∉ asciiBytes text := by
  apply not_mem_asciiBytes
  intro c listed
  exact ⟨Nat.lt_of_lt_of_le (by decide) (plain c listed).1, (plain c listed).2⟩

theorem splitOn_flatMap {lines : List (List UInt8)} (whole : ∀ line ∈ lines, newline ∉ line) :
    (lines.flatMap (· ++ [newline])).splitOn newline = lines ++ [[]] := by
  induction lines with
  | nil => rfl
  | cons line rest ih =>
      rw [List.flatMap_cons, List.append_assoc, List.singleton_append,
        List.splitOn_append_cons_self_of_not_mem (whole line (.head _)),
        ih fun line member => whole line (.tail _ member)]
      rfl

/-! ## Words -/

/-- The text has no blanks, no control characters and nothing that is not ASCII. -/
def IsWord (text : String) : Prop :=
  ∀ c ∈ text.toList, 33 ≤ c.toNat ∧ c.toNat ≤ 126

instance : DecidablePred IsWord :=
  fun text => List.decidableBAll _ text.toList

theorem IsWord.isPlain {text : String} (word : IsWord text) : IsPlain text := by
  intro c member
  rcases word c member with ⟨above, below⟩
  exact ⟨by omega, below⟩

theorem isWord_append {first second : String} (early : IsWord first) (late : IsWord second) :
    IsWord (first ++ second) := by
  intro c member
  rw [String.toList_append] at member
  rcases List.mem_append.mp member with listed | listed
  · exact early c listed
  · exact late c listed

theorem isWord_spelt {letterA : Char}
    (spelt : ∀ digit : Fin 16, 33 ≤ (Hex.spell letterA digit).toNat ∧
      (Hex.spell letterA digit).toNat ≤ 126) (width number : Nat) :
    IsWord (String.ofList ((Hex.padded width number).map (Hex.spell letterA))) := by
  intro c member
  rw [String.toList_ofList] at member
  rcases List.mem_map.mp member with ⟨digit, listed, rfl⟩
  exact spelt ⟨digit, Hex.padded_lt digit listed⟩

theorem isWord_upper (width number : Nat) : IsWord (Hex.upper width number) :=
  isWord_spelt (by decide) width number

theorem isWord_lower (width number : Nat) : IsWord (Hex.lower width number) :=
  isWord_spelt (by decide) width number

theorem isPlain_upper (width number : Nat) : IsPlain (Hex.upper width number) :=
  (isWord_upper width number).isPlain

theorem isPlain_lower (width number : Nat) : IsPlain (Hex.lower width number) :=
  (isWord_lower width number).isPlain

/-! ## Pieces of lines -/

section Pieces

variable {α : Type} {items : List α} {parts : α → List String} {line : α → String}

theorem flatten_pieces
    (ended : ∀ item, ((parts item).map asciiBytes).flatten = asciiBytes (line item) ++ [newline]) :
    ((items.flatMap parts).map asciiBytes).flatten =
      ((items.map line).map asciiBytes).flatMap (· ++ [newline]) := by
  induction items with
  | nil => rfl
  | cons item rest ih =>
      simp only [List.flatMap_cons, List.map_append, List.flatten_append, List.map_cons, ended, ih]

/-- Pieces that make up plain lines are written in full, and the lines are read
back from the bytes, with nothing behind the last newline. -/
theorem linesOf_write_pieces
    (ended : ∀ item, ((parts item).map asciiBytes).flatten = asciiBytes (line item) ++ [newline])
    (plain : ∀ item ∈ items, IsPlain (line item)) :
    ∃ written : Array UInt8,
      write (items.flatMap parts) Writer.unbounded = .ok () ⟨none, written⟩ ∧
      linesOf written = (items.map line).map asciiBytes ++ [[]] := by
  have whole : ∀ bytes ∈ (items.map line).map asciiBytes, newline ∉ bytes := by
    intro bytes member
    rw [List.map_map] at member
    rcases List.mem_map.mp member with ⟨item, listed, rfl⟩
    exact newline_not_mem_of_isPlain (plain item listed)
  refine ⟨(#[] : Array UInt8) ++ ((items.flatMap parts).map asciiBytes).flatten, ?_, ?_⟩
  · rw [write, Writer.unbounded, Writer.writePieces_unbounded]
  · rw [linesOf, Array.toList_appendList, List.nil_append, flatten_pieces ended,
      splitOn_flatMap whole]

end Pieces

theorem flatten_line (line : String) :
    ([line, "\n"].map asciiBytes).flatten = asciiBytes line ++ [newline] := by
  have mark : asciiBytes "\n" = [newline] := by decide
  simp only [List.map_cons, List.map_nil, List.flatten_cons, List.flatten_nil, List.append_nil, mark]

theorem linesOf_write {lines : List String} (plain : ∀ line ∈ lines, IsPlain line) :
    ∃ written : Array UInt8,
      write (lines.flatMap fun line => [line, "\n"]) Writer.unbounded = .ok () ⟨none, written⟩ ∧
      linesOf written = lines.map asciiBytes ++ [[]] := by
  have result := @linesOf_write_pieces _ lines _ id flatten_line plain
  rwa [List.map_id] at result

theorem getElem?_of_lines {lines : List String} {number : Nat} {line : String}
    (found : lines[number]? = some line) :
    (lines.map asciiBytes ++ [[]])[number]? = some (asciiBytes line) := by
  have mapped : (lines.map asciiBytes)[number]? = some (asciiBytes line) := by
    rw [List.getElem?_map, found]
    rfl
  rw [List.getElem?_append_left (List.getElem?_eq_some_iff.mp mapped).1, mapped]

end Listing
end Chip8
