import Chip8.Machine.Operation
import Chip8.Main
import Chip8.Proofs.Instruction.Digits
import Chip8.Proofs.Instruction.Table
import Chip8.Proofs.Timer.Counting
import Chip8.Proofs.Machine.Invariant
import Chip8.Proofs.Machine.FailureStability
import Chip8.Proofs.Machine.ControlFlow
import Chip8.Proofs.Machine.Drawing
import Chip8.Proofs.Machine.Footprint
import Chip8.Proofs.Machine.Subroutines
import Chip8.Proofs.Keypad.Assignment
import Chip8.Proofs.Machine.KeyWait
import Chip8.Proofs.Machine.Trace
import Chip8.Proofs.Machine.History
import Chip8.Proofs.Machine.Randomness
import Chip8.Proofs.Machine.Loading
import Chip8.Proofs.Hex.FixedWidth
import Chip8.Proofs.Hex.Numerals
import Chip8.Proofs.Listing.Writing
import Chip8.Proofs.Listing.Disassembly
import Chip8.Proofs.Canvas.Painting
import Chip8.Proofs.Panel.Drawing
import Chip8.Proofs.Machine.Redraw
import Chip8.Proofs.Session.Rounds
import Chip8.Proofs.Window.Painting
import Chip8.Proofs.Session.Picture
import Chip8.Proofs.Session.Schedule
import Chip8.Proofs.Listing.Reading
import Chip8.Proofs.Session.Interference
import Chip8.Proofs.Machine.Transfers
import Chip8.Proofs.Screen.Cancelling
import Chip8.Proofs.Machine.Arithmetic
import Chip8.Proofs.Session.EventStream
import Chip8.Proofs.Listing.Truncation
import Chip8.Proofs.Panel.Pixels
import Chip8.Proofs.Panel.Text
import Chip8.Proofs.Instruction.Assembly
import Chip8.Proofs.Machine.RedrawSignal
import Chip8.Proofs.Machine.Periods
import Chip8.Proofs.Session.Opening
