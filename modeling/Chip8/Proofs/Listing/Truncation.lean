import Chip8.Proofs.Listing.Reading

namespace Chip8

/-!
# Listings that do not fit

A writer with bounded room takes a beginning of what it is given.  The text comes
in pieces, and the writer may take a piece in portions; where it ends depends on
neither.  A piece that is not taken in full is the last that the writer sees.
-/

namespace Writer

variable {room : Nat} {written : Array UInt8} {bytes : List UInt8} {pieces : List (List UInt8)}

/-! ## One piece -/

/-- A piece that is not empty is offered, and what is left of it is offered again
if it has become shorter. -/
theorem writeAll_of_ne_nil (some_bytes : bytes ≠ []) (writer : Writer) :
    writeAll bytes writer =
      if (writer.offer bytes).1.length < bytes.length then
        writeAll (writer.offer bytes).1 (writer.offer bytes).2
      else .error .writerFull (writer.offer bytes).2 := by
  have nonempty : bytes.isEmpty = false := List.isEmpty_eq_false_iff.mpr some_bytes
  rw [writeAll]
  simp only [nonempty, Bool.false_eq_true, if_false]
  change (if _shorter : (writer.offer bytes).1.length < bytes.length then
    writeAll (writer.offer bytes).1 else throw IoError.writerFull) (writer.offer bytes).2 = _
  split <;> rfl

theorem offer_bounded (bytes : List UInt8) (room : Nat) (written : Array UInt8) :
    offer ⟨some room, written⟩ bytes =
      (bytes.drop room, ⟨some (room - bytes.length), written ++ bytes.take room⟩) :=
  rfl

theorem writeAll_full (some_bytes : bytes ≠ []) :
    writeAll bytes ⟨some 0, written⟩ = .error .writerFull ⟨some 0, written⟩ := by
  rw [writeAll_of_ne_nil some_bytes, offer_bounded, List.drop_zero, if_neg (Nat.lt_irrefl _),
    List.take_zero, Nat.zero_sub, Array.appendList_nil]

theorem writeAll_of_le (fits : bytes.length ≤ room) :
    writeAll bytes ⟨some room, written⟩ =
      .ok () ⟨some (room - bytes.length), written ++ bytes⟩ := by
  by_cases empty : bytes = []
  · subst empty
    rw [writeAll_nil, Array.appendList_nil]
    rfl
  · have shorter : ([] : List UInt8).length < bytes.length := List.length_pos_iff.mpr empty
    rw [writeAll_of_ne_nil empty, offer_bounded, List.drop_of_length_le fits,
      List.take_of_length_le fits]
    dsimp only
    rw [if_pos shorter, writeAll_nil]

/-- What does not fit is offered twice: first the whole piece, and then the rest
to a writer that has no room left. -/
theorem writeAll_of_lt (long : room < bytes.length) :
    writeAll bytes ⟨some room, written⟩ =
      .error .writerFull ⟨some 0, written ++ bytes.take room⟩ := by
  have some_bytes : bytes ≠ [] := List.ne_nil_of_length_pos (Nat.zero_lt_of_lt long)
  rcases Nat.eq_zero_or_pos room with rfl | positive
  · rw [writeAll_full some_bytes, List.take_zero, Array.appendList_nil]
  · have left : bytes.drop room ≠ [] := by
      rw [Ne, List.drop_eq_nil_iff, Nat.not_le]
      exact long
    have shorter : (bytes.drop room).length < bytes.length := by
      rw [List.length_drop]
      omega
    rw [writeAll_of_ne_nil some_bytes, offer_bounded, if_pos shorter,
      Nat.sub_eq_zero_of_le (Nat.le_of_lt long), writeAll_full left]

/-! ## Pieces in order -/

theorem writePieces_of_le (fits : pieces.flatten.length ≤ room) :
    writePieces pieces ⟨some room, written⟩ =
      .ok () ⟨some (room - pieces.flatten.length), written ++ pieces.flatten⟩ := by
  induction pieces generalizing room written with
  | nil =>
      rw [List.flatten_nil, Array.appendList_nil]
      rfl
  | cons piece rest ih =>
      rw [List.flatten_cons, List.length_append] at fits ⊢
      rw [writePieces_cons, writeAll_of_le (by omega)]
      dsimp only
      rw [ih (by omega), Nat.sub_sub, appendList_assoc]

/-- By induction on the pieces: the first one that does not fit is the last. -/
theorem writePieces_of_lt (long : room < pieces.flatten.length) :
    writePieces pieces ⟨some room, written⟩ =
      .error .writerFull ⟨some 0, written ++ pieces.flatten.take room⟩ := by
  induction pieces generalizing room written with
  | nil => exact absurd long (Nat.not_lt_zero room)
  | cons piece rest ih =>
      rw [List.flatten_cons, List.length_append] at long
      rw [writePieces_cons, List.flatten_cons, List.take_append]
      rcases Nat.lt_or_ge room piece.length with cut | whole
      · rw [writeAll_of_lt cut, Nat.sub_eq_zero_of_le (Nat.le_of_lt cut), List.take_zero,
          List.append_nil]
      · rw [writeAll_of_le whole, List.take_of_length_le whole]
        dsimp only
        rw [ih (by omega), appendList_assoc]

/-! ## Portions -/

/-- What can come of pieces that are offered to a writer with so much room, when
the writer takes portions of any size, but never nothing while it has room: the
bytes that it has taken, and the failure that stopped it. -/
inductive Accepts : Nat → List (List UInt8) → List UInt8 → Option IoError → Prop
  | done {room : Nat} : Accepts room [] [] none
  | next {room : Nat} {rest : List (List UInt8)} {taken : List UInt8} {failure : Option IoError} :
      Accepts room rest taken failure → Accepts room ([] :: rest) taken failure
  | portion {room : Nat} {part left : List UInt8} {rest : List (List UInt8)}
      {taken : List UInt8} {failure : Option IoError} :
      part ≠ [] → Accepts room (left :: rest) taken failure →
        Accepts (part.length + room) ((part ++ left) :: rest) (part ++ taken) failure
  | full {piece : List UInt8} {rest : List (List UInt8)} :
      piece ≠ [] → Accepts 0 (piece :: rest) [] (some .writerFull)

/-- How offering so many bytes ends. -/
def ending (room size : Nat) : Option IoError :=
  if size ≤ room then none else some .writerFull

/-- By induction on what has happened: a portion uses up as much of the room as of
the text. -/
theorem Accepts.eq_take {taken : List UInt8} {failure : Option IoError}
    (accepts : Accepts room pieces taken failure) :
    taken = pieces.flatten.take room ∧ failure = ending room pieces.flatten.length := by
  induction accepts with
  | done => exact ⟨List.take_nil.symm, rfl⟩
  | next _ ih => exact ih
  | @portion room part left rest taken failure _ _ ih =>
      rcases ih with ⟨taken_eq, failure_eq⟩
      rw [List.flatten_cons] at taken_eq failure_eq
      rw [List.flatten_cons, List.append_assoc, List.take_length_add_append, taken_eq, failure_eq]
      refine ⟨rfl, ?_⟩
      simp only [ending, List.length_append, Nat.add_le_add_iff_left]
  | @full piece rest some_bytes =>
      refine ⟨rfl, ?_⟩
      have positive := List.length_pos_iff.mpr some_bytes
      rw [ending, List.flatten_cons, List.length_append, if_neg (by omega)]

/-- A portion may also be empty, as it then changes nothing. -/
theorem Accepts.take {left taken : List UInt8} {rest : List (List UInt8)}
    {failure : Option IoError} (accepts : Accepts room (left :: rest) taken failure)
    (part : List UInt8) :
    Accepts (part.length + room) ((part ++ left) :: rest) (part ++ taken) failure := by
  by_cases empty : part = []
  · subst empty
    rwa [List.length_nil, Nat.zero_add]
  · exact .portion empty accepts

/-- By induction on the pieces, each of which may be taken as a single portion. -/
theorem accepts_take (room : Nat) (pieces : List (List UInt8)) :
    Accepts room pieces (pieces.flatten.take room) (ending room pieces.flatten.length) := by
  induction pieces generalizing room with
  | nil =>
      rw [List.flatten_nil, List.take_nil]
      exact .done
  | cons piece rest ih =>
      rw [List.flatten_cons, List.take_append, List.length_append]
      rcases Nat.lt_or_ge room piece.length with cut | whole
      · have left : piece.drop room ≠ [] := by
          rw [Ne, List.drop_eq_nil_iff, Nat.not_le]
          exact cut
        have stopped := (@Accepts.full _ rest left).take (piece.take room)
        rw [List.take_append_drop, List.length_take_of_le (Nat.le_of_lt cut)] at stopped
        rw [Nat.sub_eq_zero_of_le (Nat.le_of_lt cut), List.take_zero, ending, if_neg (by omega)]
        exact stopped
      · have later := (Accepts.next (ih (room - piece.length))).take piece
        rw [List.append_nil, Nat.add_sub_cancel' whole] at later
        rw [List.take_of_length_le whole]
        have same : ending room (piece.length + rest.flatten.length) =
            ending (room - piece.length) rest.flatten.length := by
          unfold ending
          congr 1
          apply propext
          omega
        rw [same]
        exact later

theorem accepts_iff {taken : List UInt8} {failure : Option IoError} :
    Accepts room pieces taken failure ↔
      taken = pieces.flatten.take room ∧ failure = ending room pieces.flatten.length := by
  constructor
  · exact Accepts.eq_take
  · rintro ⟨rfl, rfl⟩
    exact accepts_take room pieces

end Writer

namespace Listing

/-! ## Listings -/

theorem asciiBytes_text (lines : List String) :
    asciiBytes (text lines) = (lines.map asciiBytes).flatMap (· ++ [newline]) := by
  have mark : asciiBytes "\n" = [newline] := by decide
  induction lines with
  | nil => rfl
  | cons line rest ih =>
      have joined : text (line :: rest) = line ++ "\n" ++ text rest := String.join_cons
      rw [joined, asciiBytes_append, asciiBytes_append, mark, ih, List.map_cons, List.flatMap_cons]

theorem flatten_disassemblyPieces (rom : Rom) :
    ((disassemblyPieces rom).map asciiBytes).flatten = asciiBytes (text (disassembly rom)) := by
  rw [asciiBytes_text, disassemblyPieces, @flatten_pieces _ _ _ id flatten_line, List.map_id]

theorem flatten_dumpPieces (rom : Rom) :
    ((dumpPieces rom).map asciiBytes).flatten = asciiBytes (text (dump rom)) := by
  rw [asciiBytes_text, dumpPieces, flatten_pieces (flatten_dumpLine rom), dump]

/-- A text is written as far as the room of its writer goes. -/
structure EndsWithRoom (room : Nat) (pieces : List String) (bytes : List UInt8) : Prop where
  unbounded : write pieces Writer.unbounded = .ok () ⟨none, bytes.toArray⟩
  whole : bytes.length ≤ room →
    write pieces (Writer.bounded room) = .ok () ⟨some (room - bytes.length), bytes.toArray⟩
  cut : room < bytes.length →
    write pieces (Writer.bounded room) =
      .error (.io .writerFull) ⟨some 0, (bytes.take room).toArray⟩
  portions : ∀ taken failure, Writer.Accepts room (pieces.map asciiBytes) taken failure ↔
    taken = bytes.take room ∧ failure = if bytes.length ≤ room then none else some .writerFull

theorem endsWithRoom {pieces : List String} {bytes : List UInt8} (room : Nat)
    (together : (pieces.map asciiBytes).flatten = bytes) : EndsWithRoom room pieces bytes := by
  subst together
  have empty (bytes : List UInt8) : (#[] : Array UInt8) ++ bytes = bytes.toArray := by
    apply Array.toList_inj.mp
    rw [Array.toList_appendList, List.nil_append]
  refine { unbounded := ?_, whole := ?_, cut := ?_, portions := fun _ _ => Writer.accepts_iff }
  · rw [write, Writer.unbounded, Writer.writePieces_unbounded, empty]
  · intro fits
    rw [write, Writer.bounded, Writer.writePieces_of_le fits, empty]
  · intro long
    rw [write, Writer.bounded, Writer.writePieces_of_lt long, empty]

/-- **A listing that is cut short is a beginning of the listing.** A writer with
room for some number of bytes gets as many bytes of the disassembly and of the
dump of a ROM as fit.  Writing succeeds if that is all of them, and otherwise it
fails because the writer is full.  It makes no difference in which portions the
writer takes the bytes. -/
theorem listings_end_with_the_room (rom : Rom) (room : Nat) :
    EndsWithRoom room (disassemblyPieces rom) (asciiBytes (text (disassembly rom))) ∧
      EndsWithRoom room (dumpPieces rom) (asciiBytes (text (dump rom))) ∧
      (Error.io .writerFull).message = "failed to write whole buffer" :=
  ⟨endsWithRoom room (flatten_disassemblyPieces rom), endsWithRoom room (flatten_dumpPieces rom),
    rfl⟩

end Listing
end Chip8
