import Chip8.Error
import Chip8.Instruction.Mnemonic
import Chip8.Rom

namespace Chip8

/-!
# Listings

Two texts of a ROM.  The disassembly has a line for each opcode and the dump a
line for each sixteen bytes.  A listing is handed to a writer piece by piece; a
writer that fails has taken a beginning of the listing and gets no more of it.
-/

/-! ## Writers -/

/-- Collects bytes.  A writer with bounded room takes what still fits. -/
structure Writer where
  /-- How many more bytes it takes; without a number it takes all. -/
  room : Option Nat
  written : Array UInt8
  deriving DecidableEq

namespace Writer

def unbounded : Writer := ⟨none, #[]⟩

def bounded (room : Nat) : Writer := ⟨some room, #[]⟩

/-- Offers bytes to a writer; the answer is what it did not take. -/
def offer (writer : Writer) (bytes : List UInt8) : List UInt8 × Writer :=
  match writer.room with
  | none => ([], { writer with written := writer.written ++ bytes })
  | some room =>
      (bytes.drop room,
        ⟨some (room - bytes.length), writer.written ++ bytes.take room⟩)

/-- Writes a piece in full.  A writer that takes only a part is offered the
rest again, and one that takes nothing fails. -/
def writeAll (bytes : List UInt8) : EStateM IoError Writer Unit := do
  if bytes.isEmpty then return ()
  let rest ← modifyGet (offer · bytes)
  if _shorter : rest.length < bytes.length then writeAll rest
  else throw IoError.writerFull
termination_by bytes.length

/-- Writes pieces in order and stops at the first that fails. -/
def writePieces : List (List UInt8) → EStateM IoError Writer Unit
  | [] => pure ()
  | piece :: rest => do
      writeAll piece
      writePieces rest

end Writer

namespace Listing

/-- The bytes of a text of ASCII characters, as all listings are. -/
def asciiBytes (text : String) : List UInt8 :=
  text.toList.map fun c => UInt8.ofNat c.toNat

/-! ## Disassembly -/

/-- An opcode as a mnemonic, or as its digits when it has none. -/
def meaning (opcode : Opcode) : String :=
  match Instruction.decode opcode with
  | .ok instruction => instruction.mnemonic
  | .error _ => Hex.upper 4 opcode.toNat

/-- The line of one opcode: its address, its two bytes and its meaning. -/
def opcodeLine (address : UInt16) (opcode : Opcode) : String :=
  Hex.upper 3 address.toNat ++ "  " ++ Hex.upper 2 opcode.high.toNat ++ " " ++
    Hex.upper 2 opcode.low.toNat ++ "  " ++ meaning opcode

def disassembly (rom : Rom) : List String :=
  rom.opcodes.map fun (address, opcode) => opcodeLine address opcode

/-! ## Dump -/

/-- Bytes on one line of the dump. -/
def dumpWidth : Nat := 16

/-- The bytes of a line of the dump, counted from zero. -/
def dumpChunk (rom : Rom) (line : Nat) : List UInt8 :=
  (rom.bytes.extract (dumpWidth * line) (dumpWidth * line + dumpWidth)).toList

def dumpOffset (line : Nat) : String :=
  Hex.lower 4 (dumpWidth * line)

def dumpRow (bytes : List UInt8) : String :=
  " ".intercalate (bytes.map fun byte => Hex.lower 2 byte.toNat)

def dumpLine (rom : Rom) (line : Nat) : String :=
  dumpOffset line ++ ": " ++ dumpRow (dumpChunk rom line)

/-- The number of lines of the dump. -/
def dumpHeight (rom : Rom) : Nat := (rom.size + (dumpWidth - 1)) / dumpWidth

def dump (rom : Rom) : List String :=
  (List.range (dumpHeight rom)).map (dumpLine rom)

/-! ## Writing -/

/-- The pieces in which the disassembly is written. -/
def disassemblyPieces (rom : Rom) : List String :=
  (disassembly rom).flatMap fun line => [line, "\n"]

/-- The pieces in which the dump is written. -/
def dumpPieces (rom : Rom) : List String :=
  (List.range (dumpHeight rom)).flatMap fun line =>
    [dumpOffset line, ": ", dumpRow (dumpChunk rom line), "\n"]

/-- Writes a text given in pieces.  A failure of the writer becomes an error. -/
def write (pieces : List String) (writer : Writer) : EStateM.Result Error Writer Unit :=
  match Writer.writePieces (pieces.map asciiBytes) writer with
  | .ok _ reached => .ok () reached
  | .error failure reached => .error (.io failure) reached

/-- The whole text of lines, each ended by a newline. -/
def text (lines : List String) : String :=
  String.join (lines.map (· ++ "\n"))

end Listing
end Chip8
