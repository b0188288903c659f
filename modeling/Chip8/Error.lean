import Chip8.Hex
import Chip8.Path

namespace Chip8

/-!
# Errors

An error carries its cause as data; `Error.message` is the one place where its
wording is decided.  `Error.same` compares causes: file names as paths, and
input and output failures by their kind alone.
-/

/-- The kinds of failure that reading and writing can meet. -/
inductive IoKind where
  | notFound
  | permissionDenied
  | alreadyExists
  | notADirectory
  | isADirectory
  | invalidFilename
  | invalidInput
  | invalidData
  | wouldBlock
  | timedOut
  | writeZero
  | interrupted
  | unsupported
  | unexpectedEof
  | outOfMemory
  | storageFull
  | brokenPipe
  | connectionRefused
  | connectionReset
  | connectionAborted
  | notConnected
  | addressInUse
  | addressNotAvailable
  | other
  deriving DecidableEq, Repr

/-- A failure of reading or writing, reported by the operating system under
its number or by a reader or writer of the program. -/
inductive IoError where
  | system (code : Nat) (description : String)
  | reported (kind : IoKind) (text : String)
  deriving DecidableEq, Repr

namespace IoError

def noSuchFile : IoError := .system 2 "No such file or directory"
def notADirectory : IoError := .system 20 "Not a directory"
def isADirectory : IoError := .system 21 "Is a directory"
def nameTooLong : IoError := .system 36 "File name too long"

/-- No path may hold the character of code zero. -/
def nulInPath : IoError :=
  .reported .invalidInput "file name contained an unexpected NUL byte"

/-- The writer accepted no byte of a piece that was not empty. -/
def writerFull : IoError :=
  .reported .writeZero "failed to write whole buffer"

def kind : IoError → IoKind
  | .reported kind _ => kind
  | .system code _ =>
      match code with
      | 2 => .notFound
      | 4 => .interrupted
      | 11 => .wouldBlock
      | 12 => .outOfMemory
      | 1 | 13 => .permissionDenied
      | 17 => .alreadyExists
      | 20 => .notADirectory
      | 21 => .isADirectory
      | 22 => .invalidInput
      | 28 => .storageFull
      | 32 => .brokenPipe
      | 36 => .invalidFilename
      | _ => .other

def message : IoError → String
  | .system code description => description ++ " (os error " ++ toString code ++ ")"
  | .reported _ text => text

end IoError

inductive Error where
  | romTooLarge (size limit : Nat)
  | stackUnderflow
  | stackOverflow (depth : Nat)
  | programCounterOutOfRange (address : UInt16)
  | unknownOpcode (opcode : UInt16)
  | fileNotFound (path : String)
  | io (failure : IoError)
  deriving DecidableEq, Repr

namespace Error

def message : Error → String
  | .romTooLarge size limit =>
      "ROM is too large (" ++ toString size ++ " bytes), max size is " ++ toString limit ++ " bytes"
  | .stackUnderflow => "stack underflow: return with an empty call stack"
  | .stackOverflow depth => "stack overflow: more than " ++ toString depth ++ " nested calls"
  | .programCounterOutOfRange address =>
      "program counter out of range: 0x" ++ Hex.upper 3 address.toNat
  | .unknownOpcode opcode => "unknown opcode: 0x" ++ Hex.upper 4 opcode.toNat
  | .fileNotFound path => "ROM file not found: " ++ path
  | .io failure => failure.message

/-- Equality of causes.  The texts of input and output failures do not count. -/
def same : Error → Error → Bool
  | .fileNotFound a, .fileNotFound b => Path.same a b
  | .io a, .io b => a.kind == b.kind
  | a, b => a == b

end Error
end Chip8
