import Chip8.Proofs.Hex.Numerals
import Chip8.Proofs.Hex.Reading
import Chip8.Proofs.Listing.Disassembly

namespace Chip8

/-!
# Reading listings back

Both listings show every byte of a ROM as two digits in columns of their own, so
a reader that knows the columns gets the bytes back.  The reader splits the text
into lines and a line into words; it does not look at offsets and addresses, and
not at mnemonics either.

The disassembly shows the bytes in pairs.  When their number is odd, the last
pair is filled up with a zero, and then the ROM with that zero at its end has the
same listing.  The dump has no such exception.
-/

/-! ## What the lines look like -/

namespace Listing

/-- A line of the dump: an offset and some bytes. -/
def dumpText (offset : Nat) (chunk : List UInt8) : String :=
  Hex.lowerNumeral 4 offset ++ ": " ++
    " ".intercalate (chunk.map fun byte => Hex.lowerNumeral 2 byte.toNat)

/-- The columns of the disassembly in front of the meaning: an address and two bytes. -/
def columnsText (address : Nat) (high low : UInt8) : String :=
  Hex.upperNumeral 3 address ++ "  " ++ Hex.upperNumeral 2 high.toNat ++ " " ++
    Hex.upperNumeral 2 low.toNat

/-! ## A reader -/

/-- The byte between words. -/
def blank : UInt8 := 32

def wordsOf (line : List UInt8) : List (List UInt8) :=
  line.splitOn blank

def readDigit (byte : UInt8) : Option Nat :=
  Hex.digit? (Char.ofNat byte.toNat)

/-- The byte that a word of two digits spells. -/
def readByte : List UInt8 → Option UInt8
  | [high, low] => do return UInt8.ofNat (16 * (← readDigit high) + (← readDigit low))
  | _ => none

/-- The bytes in some columns of a line. -/
def readLine (columns : List (List UInt8) → List (List UInt8)) (line : List UInt8) :
    Option (List UInt8) :=
  (columns (wordsOf line)).mapM readByte

/-- The bytes in some columns of all lines. -/
def readLines (columns : List (List UInt8) → List (List UInt8)) (written : Array UInt8) :
    Option (List UInt8) :=
  ((linesOf written).dropLast.mapM (readLine columns)).map List.flatten

/-- In the dump the bytes are the words behind the offset. -/
def readDump : Array UInt8 → Option (List UInt8) :=
  readLines fun words => words.drop 1

/-- In the disassembly an empty word stands between the address and the two bytes. -/
def readDisassembly : Array UInt8 → Option (List UInt8) :=
  readLines fun words => (words.drop 2).take 2

/-! ## Words -/

theorem blank_not_mem_of_isWord {text : String} (word : IsWord text) :
    blank ∉ asciiBytes text :=
  not_mem_asciiBytes word

theorem asciiBytes_append (first second : String) :
    asciiBytes (first ++ second) = asciiBytes first ++ asciiBytes second := by
  rw [asciiBytes, String.toList_append, List.map_append]
  rfl

theorem asciiBytes_spaced (words : List String) :
    asciiBytes (" ".intercalate words) = [blank].intercalate (words.map asciiBytes) := by
  induction words with
  | nil => rfl
  | cons word rest ih =>
      cases rest with
      | nil => simp only [String.intercalate_singleton, List.map_cons, List.map_nil,
          List.intercalate_singleton]
      | cons next later =>
          rw [String.intercalate_cons_cons, asciiBytes_append, asciiBytes_append, ih]
          exact List.intercalate_cons_cons.symm

/-! ## Two digits -/

theorem readByte_digits {letterA : Char}
    (reads : ∀ digit : Fin 16, readDigit (UInt8.ofNat (Hex.spell letterA digit).toNat) = some digit)
    (byte : UInt8) :
    readByte (asciiBytes (String.ofList ((Hex.padded 2 byte.toNat).map (Hex.spell letterA)))) =
      some byte := by
  have bound := byte.toNat_lt
  have high := reads ⟨byte.toNat / 16, by omega⟩
  have low := reads ⟨byte.toNat % 16, by omega⟩
  rw [Hex.padded_two bound, asciiBytes, String.toList_ofList]
  simp only [List.map_cons, List.map_nil, readByte, high, low]
  apply congrArg some
  apply UInt8.toNat_inj.mp
  rw [UInt8.toNat_ofNat', Nat.div_add_mod, Nat.mod_eq_of_lt bound]

theorem readByte_lower (byte : UInt8) :
    readByte (asciiBytes (Hex.lower 2 byte.toNat)) = some byte :=
  readByte_digits (by decide) byte

theorem readByte_upper (byte : UInt8) :
    readByte (asciiBytes (Hex.upper 2 byte.toNat)) = some byte :=
  readByte_digits (by decide) byte

/-! ## Lines -/

/-- If every line of a text is read as a chunk, the text is read as all the chunks. -/
theorem readLines_eq {columns : List (List UInt8) → List (List UInt8)} {written : Array UInt8}
    {count : Nat} {line : Nat → String} {chunk : Nat → List UInt8}
    (lines : linesOf written = ((List.range count).map line).map asciiBytes ++ [[]])
    (each : ∀ number < count, readLine columns (asciiBytes (line number)) = some (chunk number)) :
    readLines columns written = some ((List.range count).flatMap chunk) := by
  have whole : (linesOf written).dropLast =
      (List.range count).map fun number => asciiBytes (line number) := by
    rw [lines, List.dropLast_concat, List.map_map]
    rfl
  have read : (List.range count).mapM (readLine columns ∘ fun number => asciiBytes (line number)) =
      some ((List.range count).map chunk) := by
    apply mapM_eq_some
    intro number member
    exact each number (List.mem_range.mp member)
  rw [readLines, whole, List.mapM_map, read, List.flatMap_def]
  rfl

/-! ## The dump -/

/-- The bytes of a line of the dump, cut out of the ROM. -/
theorem dumpChunk_eq (rom : Rom) (line : Nat) :
    dumpChunk rom line = (rom.bytes.toList.drop (16 * line)).take 16 := by
  rw [dumpChunk, Array.toList_extract, List.extract_eq_take_drop, Nat.add_sub_cancel_left]
  rfl

theorem dumpLine_eq_dumpText (rom : Rom) (line : Nat) :
    dumpLine rom line =
      dumpText (16 * line) ((rom.bytes.toList.drop (16 * line)).take 16) := by
  simp only [dumpLine, dumpOffset, dumpRow, dumpText, Hex.lower_eq_lowerNumeral, dumpChunk_eq]
  rfl

theorem dumpChunk_ne_nil {rom : Rom} {line : Nat} (listed : line < dumpHeight rom) :
    dumpChunk rom line ≠ [] := by
  intro none
  have length := congrArg List.length none
  rw [dumpChunk_eq, List.length_take, List.length_drop] at length
  unfold dumpHeight dumpWidth Rom.size at listed
  simp only [Array.length_toList, List.length_nil] at length
  omega

theorem wordsOf_dumpLine {rom : Rom} {line : Nat} (listed : line < dumpHeight rom) :
    wordsOf (asciiBytes (dumpLine rom line)) =
      asciiBytes (dumpOffset line ++ ":") ::
        (dumpChunk rom line).map fun byte => asciiBytes (Hex.lower 2 byte.toNat) := by
  let bytes := (dumpChunk rom line).map fun byte => asciiBytes (Hex.lower 2 byte.toNat)
  have some_bytes : bytes ≠ [] := by
    intro none
    exact dumpChunk_ne_nil listed (List.map_eq_nil_iff.mp none)
  have joined : asciiBytes (dumpLine rom line) =
      [blank].intercalate (asciiBytes (dumpOffset line ++ ":") :: bytes) := by
    have row : asciiBytes (dumpRow (dumpChunk rom line)) = [blank].intercalate bytes := by
      rw [dumpRow, asciiBytes_spaced, List.map_map]
      rfl
    have colon : asciiBytes ": " = asciiBytes ":" ++ [blank] := by decide
    rw [dumpLine, List.intercalate_cons_of_ne_nil some_bytes, asciiBytes_append, asciiBytes_append,
      asciiBytes_append, row, colon]
    simp only [List.append_assoc]
  rw [joined]
  apply List.splitOn_intercalate
  · intro word member
    rcases List.mem_cons.mp member with rfl | listed
    · exact blank_not_mem_of_isWord (isWord_append (isWord_lower 4 _) (by decide))
    · rcases List.mem_map.mp listed with ⟨byte, _, rfl⟩
      exact blank_not_mem_of_isWord (isWord_lower 2 _)
  · exact List.cons_ne_nil _ _

theorem isPlain_spaced {words : List String} (plain : ∀ word ∈ words, IsPlain word) :
    IsPlain (" ".intercalate words) := by
  induction words with
  | nil =>
      rw [String.intercalate_nil]
      decide
  | cons word rest ih =>
      have first := plain word (.head _)
      have later := ih fun other member => plain other (.tail _ member)
      cases rest with
      | nil => rwa [String.intercalate_singleton]
      | cons next others =>
          rw [String.intercalate_cons_cons, isPlain_append, isPlain_append]
          exact ⟨⟨first, by decide⟩, later⟩

theorem isPlain_dumpLine (rom : Rom) (line : Nat) : IsPlain (dumpLine rom line) := by
  rw [dumpLine, isPlain_append, isPlain_append]
  refine ⟨⟨isPlain_lower 4 _, by decide⟩, isPlain_spaced ?_⟩
  intro word member
  rcases List.mem_map.mp member with ⟨byte, _, rfl⟩
  exact isPlain_lower 2 _

theorem flatten_dumpLine (rom : Rom) (line : Nat) :
    ([dumpOffset line, ": ", dumpRow (dumpChunk rom line), "\n"].map asciiBytes).flatten =
      asciiBytes (dumpLine rom line) ++ [newline] := by
  have mark : asciiBytes "\n" = [newline] := by decide
  simp only [List.map_cons, List.map_nil, List.flatten_cons, List.flatten_nil, List.append_nil,
    dumpLine, asciiBytes_append, mark, List.append_assoc]

/-- The lines that are written for the dump of a ROM. -/
theorem linesOf_dump (rom : Rom) : ∃ written : Array UInt8,
    write (dumpPieces rom) Writer.unbounded = .ok () ⟨none, written⟩ ∧
      linesOf written =
        ((List.range (dumpHeight rom)).map (dumpLine rom)).map asciiBytes ++ [[]] :=
  linesOf_write_pieces (flatten_dumpLine rom) fun line _ => isPlain_dumpLine rom line

theorem readLine_dumpLine {rom : Rom} {line : Nat} (listed : line < dumpHeight rom) :
    readLine (fun words => words.drop 1) (asciiBytes (dumpLine rom line)) =
      some (dumpChunk rom line) := by
  have read :
      (dumpChunk rom line).mapM (readByte ∘ fun byte => asciiBytes (Hex.lower 2 byte.toNat)) =
        some ((dumpChunk rom line).map id) := by
    apply mapM_eq_some
    intro byte _
    rw [Function.comp_apply, readByte_lower]
    rfl
  rw [readLine, wordsOf_dumpLine listed, List.drop_one, List.tail_cons, List.mapM_map, read,
    List.map_id]

/-- Chunks of a list, one behind the other, are a beginning of the list. -/
theorem flatMap_chunks {α : Type} (items : List α) (width count : Nat) :
    ((List.range count).flatMap fun k => (items.drop (width * k)).take width) =
      items.take (width * count) := by
  induction count with
  | zero => rw [Nat.mul_zero]; rfl
  | succ count ih =>
      rw [List.range_succ, List.flatMap_append, ih, List.flatMap_singleton, Nat.mul_succ,
        List.take_add]

theorem readDump_of_write {rom : Rom} {written : Array UInt8}
    (lines : linesOf written =
      ((List.range (dumpHeight rom)).map (dumpLine rom)).map asciiBytes ++ [[]]) :
    readDump written = some rom.bytes.toList := by
  have chunks : dumpChunk rom = fun line => (rom.bytes.toList.drop (16 * line)).take 16 := by
    funext line
    exact dumpChunk_eq rom line
  rw [readDump, readLines_eq lines fun line listed => readLine_dumpLine listed, chunks,
    flatMap_chunks]
  apply congrArg some
  apply List.take_of_length_le
  unfold dumpHeight dumpWidth Rom.size
  rw [Array.length_toList]
  omega

/-! ## The disassembly -/

theorem opcodeLine_eq_columnsText (rom : Rom) (number : Nat) :
    opcodeLine (rom.opcode number).1 (rom.opcode number).2 =
      columnsText ((0x200 + 2 * number) % 65536) (rom.byte (2 * number))
        (rom.byte (2 * number + 1)) ++ ("  " ++ meaning (rom.opcode number).2) := by
  have position : (rom.opcode number).1.toNat = (0x200 + 2 * number) % 65536 := by
    change (programStart + UInt16.ofNat (2 * number)).toNat = _
    rw [UInt16.toNat_add, UInt16.toNat_ofNat', Memory.programStart_toNat]
    omega
  have high : (rom.opcode number).2.high = rom.byte (2 * number) := Opcode.high_ofBytes _ _
  have low : (rom.opcode number).2.low = rom.byte (2 * number + 1) := Opcode.low_ofBytes _ _
  simp only [opcodeLine, columnsText, position, high, low, Hex.upper_eq_upperNumeral,
    String.append_assoc]

theorem wordsOf_opcodeLine (address : UInt16) (opcode : Opcode) :
    wordsOf (asciiBytes (opcodeLine address opcode)) =
      asciiBytes (Hex.upper 3 address.toNat) :: [] ::
        asciiBytes (Hex.upper 2 opcode.high.toNat) ::
        asciiBytes (Hex.upper 2 opcode.low.toNat) :: [] ::
        wordsOf (asciiBytes (meaning opcode)) := by
  have one : asciiBytes " " = [blank] := by decide
  have two : asciiBytes "  " = [blank, blank] := by decide
  have split {word : List UInt8} (whole : blank ∉ word) (rest : List UInt8) :
      (word ++ blank :: rest).splitOn blank = word :: rest.splitOn blank :=
    List.splitOn_append_cons_self_of_not_mem whole rest
  have empty (rest : List UInt8) : (blank :: rest).splitOn blank = [] :: rest.splitOn blank :=
    split List.not_mem_nil rest
  have digits (width number : Nat) : blank ∉ asciiBytes (Hex.upper width number) :=
    blank_not_mem_of_isWord (isWord_upper width number)
  unfold wordsOf
  simp only [opcodeLine, asciiBytes_append, one, two, List.append_assoc, List.cons_append,
    List.nil_append]
  rw [split (digits 3 _), empty, split (digits 2 _), split (digits 2 _), empty]

theorem readLine_opcodeLine (address : UInt16) (opcode : Opcode) :
    readLine (fun words => (words.drop 2).take 2) (asciiBytes (opcodeLine address opcode)) =
      some [opcode.high, opcode.low] := by
  rw [readLine, wordsOf_opcodeLine]
  change [asciiBytes (Hex.upper 2 opcode.high.toNat),
    asciiBytes (Hex.upper 2 opcode.low.toNat)].mapM readByte = _
  simp only [List.mapM_cons, readByte_upper]
  rfl

end Listing

namespace Rom

/-- The bytes of a ROM, with a zero at the end if their number is odd. -/
def filled (rom : Rom) : List UInt8 :=
  rom.bytes.toList ++ if rom.size % 2 = 1 then [0] else []

theorem length_filled (rom : Rom) : rom.filled.length = 2 * rom.opcodeCount := by
  unfold filled opcodeCount
  by_cases odd : rom.size % 2 = 1
  · rw [if_pos odd, List.length_append, Array.length_toList]
    change rom.size + 1 = _
    omega
  · rw [if_neg odd, List.append_nil, Array.length_toList]
    change rom.size = _
    omega

theorem byte_eq_filled (rom : Rom) (offset : Nat) :
    rom.byte offset = rom.filled[offset]?.getD 0 := by
  unfold byte filled
  rw [← Array.getElem?_toList]
  by_cases inside : offset < rom.bytes.toList.length
  · rw [List.getElem?_append_left inside]
  · rw [List.getElem?_append_right (by omega), List.getElem?_eq_none (by omega)]
    split
    · cases offset - rom.bytes.toList.length <;> rfl
    · rfl

theorem opcodes_eq_of_filled {rom other : Rom} (same : rom.filled = other.filled) :
    rom.opcodes = other.opcodes := by
  have count : rom.opcodeCount = other.opcodeCount := by
    have length := congrArg List.length same
    rw [length_filled, length_filled] at length
    omega
  have byte : rom.byte = other.byte := by
    funext offset
    rw [byte_eq_filled, byte_eq_filled, same]
  have opcode : rom.opcode = other.opcode := by
    funext number
    simp only [Rom.opcode, byte]
  rw [opcodes, opcodes, count, opcode]

theorem filled_of_odd {rom : Rom} (odd : rom.size % 2 = 1) :
    rom.filled = (rom.bytes.push 0).toList := by
  rw [filled, if_pos odd, Array.toList_push]

theorem filled_of_even {rom : Rom} (even : ¬ rom.size % 2 = 1) :
    rom.filled = rom.bytes.toList := by
  rw [filled, if_neg even, List.append_nil]

theorem filled_push {rom other : Rom} (odd : rom.size % 2 = 1)
    (longer : other.bytes = rom.bytes.push 0) : other.filled = rom.filled := by
  have even : ¬ other.size % 2 = 1 := by
    rw [size, longer, Array.size_push]
    change ¬ (rom.size + 1) % 2 = 1
    omega
  rw [filled_of_even even, longer, filled_of_odd odd]

/-- Filled ROMs agree in one way other than by equal bytes: one of them got its
last zero, and the other had it already. -/
theorem filled_eq_iff {rom other : Rom} :
    rom.filled = other.filled ↔
      rom = other ∨ (rom.size % 2 = 1 ∧ other.bytes = rom.bytes.push 0) ∨
        (other.size % 2 = 1 ∧ rom.bytes = other.bytes.push 0) := by
  have equal {first second : Rom} (same : first.bytes = second.bytes) : first = second :=
    congrArg Rom.mk same
  constructor
  · intro same
    by_cases odd : rom.size % 2 = 1 <;> by_cases otherOdd : other.size % 2 = 1
    · rw [filled_of_odd odd, filled_of_odd otherOdd, Array.toList_inj] at same
      exact .inl (equal (Array.push_inj_left.mp same))
    · rw [filled_of_odd odd, filled_of_even otherOdd, Array.toList_inj] at same
      exact .inr (.inl ⟨odd, same.symm⟩)
    · rw [filled_of_even odd, filled_of_odd otherOdd, Array.toList_inj] at same
      exact .inr (.inr ⟨otherOdd, same⟩)
    · rw [filled_of_even odd, filled_of_even otherOdd, Array.toList_inj] at same
      exact .inl (equal same)
  · rintro (rfl | ⟨odd, longer⟩ | ⟨odd, longer⟩)
    · rfl
    · exact (filled_push odd longer).symm
    · exact filled_push odd longer

end Rom

namespace Listing

theorem flatMap_range_pairs {α : Type} (item : Nat → α) (count : Nat) :
    ((List.range count).flatMap fun k => [item (2 * k), item (2 * k + 1)]) =
      (List.range (2 * count)).map item := by
  induction count with
  | zero => rfl
  | succ count ih =>
      rw [List.range_succ, List.flatMap_append, ih, List.flatMap_singleton, Nat.mul_succ,
        List.range_succ, List.range_succ, List.append_assoc, List.map_append]
      rfl

/-- Pairs of bytes, one behind the other, are all bytes. -/
theorem flatMap_pairs (rom : Rom) :
    ((List.range rom.opcodeCount).flatMap fun k => [rom.byte (2 * k), rom.byte (2 * k + 1)]) =
      rom.filled := by
  rw [flatMap_range_pairs, ← Rom.length_filled]
  apply List.ext_getElem
  · rw [List.length_map, List.length_range]
  · intro offset _ inside
    rw [List.getElem_map, List.getElem_range, Rom.byte_eq_filled, List.getElem?_eq_getElem inside,
      Option.getD_some]

theorem disassembly_eq (rom : Rom) :
    disassembly rom = (List.range rom.opcodeCount).map fun number =>
      opcodeLine (rom.opcode number).1 (rom.opcode number).2 := by
  rw [disassembly, Rom.opcodes, List.map_map]
  rfl

theorem readDisassembly_of_write {rom : Rom} {written : Array UInt8}
    (lines : linesOf written = (disassembly rom).map asciiBytes ++ [[]]) :
    readDisassembly written = some rom.filled := by
  rw [disassembly_eq] at lines
  rw [readDisassembly, readLines_eq lines fun number _ => readLine_opcodeLine _ _, ← flatMap_pairs]
  simp only [Rom.opcode, Opcode.high_ofBytes, Opcode.low_ofBytes]

/-! ## No byte is lost -/

/-- What two ROMs write is equal only if it is read as the same bytes. -/
theorem read_eq_of_write_eq {pieces others : List String} {written rewritten : Array UInt8}
    {read : Array UInt8 → Option (List UInt8)} {bytes otherBytes : List UInt8}
    (same : write pieces Writer.unbounded = write others Writer.unbounded)
    (first : write pieces Writer.unbounded = .ok () ⟨none, written⟩)
    (second : write others Writer.unbounded = .ok () ⟨none, rewritten⟩)
    (firstRead : read written = some bytes) (secondRead : read rewritten = some otherBytes) :
    bytes = otherBytes := by
  rw [first, second, EStateM.Result.ok.injEq, Writer.mk.injEq] at same
  rw [same.2.2, secondRead] at firstRead
  exact (Option.some.inj firstRead).symm

theorem write_dump_eq_iff {rom other : Rom} :
    write (dumpPieces rom) Writer.unbounded = write (dumpPieces other) Writer.unbounded ↔
      rom = other := by
  constructor
  · intro same
    rcases linesOf_dump rom with ⟨dumped, first, lines⟩
    rcases linesOf_dump other with ⟨otherDumped, second, otherLines⟩
    have bytes := read_eq_of_write_eq same first second (readDump_of_write lines)
      (readDump_of_write otherLines)
    exact congrArg Rom.mk (Array.toList_inj.mp bytes)
  · rintro rfl
    rfl

theorem write_disassembly_eq_iff {rom other : Rom} :
    write (disassemblyPieces rom) Writer.unbounded =
        write (disassemblyPieces other) Writer.unbounded ↔ rom.filled = other.filled := by
  constructor
  · intro same
    rcases linesOf_disassembly rom with ⟨listed, first, lines⟩
    rcases linesOf_disassembly other with ⟨otherListed, second, otherLines⟩
    exact read_eq_of_write_eq same first second (readDisassembly_of_write lines)
      (readDisassembly_of_write otherLines)
  · intro same
    unfold disassemblyPieces disassembly
    rw [Rom.opcodes_eq_of_filled same]

/-- **No listing loses a byte.** The dump of a ROM has a line for every sixteen
bytes, complete or not, and is read back as exactly the bytes of the ROM; so only
equal ROMs have equal dumps.  The disassembly has a line for every two bytes,
complete or not, that starts with an address and the bytes and ends with their
meaning, and it is read back as the bytes of the ROM with a zero at the end if
their number is odd; so two ROMs have equal disassemblies if and only if they are
equal or one of them has an odd number of bytes and the other is the same with a
zero at its end. -/
theorem listings_are_lossless (rom : Rom) :
    (∃ dumped : Array UInt8,
      write (dumpPieces rom) Writer.unbounded = .ok () ⟨none, dumped⟩ ∧
        linesOf dumped = ((List.range ((rom.size + 15) / 16)).map fun line =>
          asciiBytes (dumpText (16 * line) ((rom.bytes.toList.drop (16 * line)).take 16))) ++
            [[]] ∧
        readDump dumped = some rom.bytes.toList) ∧
      (∀ other : Rom,
        write (dumpPieces rom) Writer.unbounded = write (dumpPieces other) Writer.unbounded ↔
          rom = other) ∧
      (∃ listed : Array UInt8,
        write (disassemblyPieces rom) Writer.unbounded = .ok () ⟨none, listed⟩ ∧
          linesOf listed = ((List.range ((rom.size + 1) / 2)).map fun number =>
            asciiBytes (columnsText ((0x200 + 2 * number) % 65536) (rom.byte (2 * number))
              (rom.byte (2 * number + 1)) ++ ("  " ++ meaning (rom.opcode number).2))) ++ [[]] ∧
          readDisassembly listed =
            some (rom.bytes.toList ++ if rom.size % 2 = 1 then [0] else [])) ∧
      ∀ other : Rom,
        write (disassemblyPieces rom) Writer.unbounded =
            write (disassemblyPieces other) Writer.unbounded ↔
          rom = other ∨ (rom.size % 2 = 1 ∧ other.bytes = rom.bytes.push 0) ∨
            (other.size % 2 = 1 ∧ rom.bytes = other.bytes.push 0) := by
  refine ⟨?dump, fun other => write_dump_eq_iff, ?disassembly, ?same⟩
  case dump =>
    rcases linesOf_dump rom with ⟨dumped, done, lines⟩
    refine ⟨dumped, done, ?_, readDump_of_write lines⟩
    rw [lines, List.map_map]
    have line : asciiBytes ∘ dumpLine rom = fun line =>
        asciiBytes (dumpText (16 * line) ((rom.bytes.toList.drop (16 * line)).take 16)) := by
      funext line
      rw [Function.comp_apply, dumpLine_eq_dumpText]
    rw [line]
    rfl
  case disassembly =>
    rcases linesOf_disassembly rom with ⟨listed, done, lines⟩
    refine ⟨listed, done, ?_, readDisassembly_of_write lines⟩
    rw [lines, disassembly_eq, List.map_map]
    simp only [Function.comp_def, opcodeLine_eq_columnsText]
    rfl
  case same =>
    intro other
    rw [write_disassembly_eq_iff, Rom.filled_eq_iff]

end Listing
end Chip8
