import Chip8.CommandLine.Basic

namespace Chip8
namespace Main

/-!
# The program

Reads and writes real files for the command line.  There is no display here, so
a ROM can be listed and checked, and playing it ends when its window would open.
-/

/-- A failure of the operating system.  Its number may be reported negated. -/
def systemFailure (code : UInt32) (details : String) : IoError :=
  let number := if code < 0x80000000 then code.toNat else (0 - code).toNat
  match number with
  | 2 => .noSuchFile
  | 20 => .notADirectory
  | 21 => .isADirectory
  | 36 => .nameTooLong
  | number => .system number details

def failureOf : IO.Error → IoError
  | .noFileOrDirectory .. => .noSuchFile
  | .inappropriateType _ code details => systemFailure code details
  | .permissionDenied _ code details => systemFailure code details
  | .invalidArgument _ code details => systemFailure code details
  | .resourceExhausted _ code details => systemFailure code details
  | .alreadyExists _ code details => systemFailure code details
  | .otherError code details => systemFailure code details
  | failure => .reported .other (toString failure)

def attempt (action : IO α) : IO (Except IoError α) := do
  try
    return .ok (← action)
  catch failure =>
    return .error (failureOf failure)

def disk : Disk IO where
  read path := attempt do return (← IO.FS.readBinFile path).data
  create path bytes := attempt (IO.FS.writeBinFile path ⟨bytes⟩)

/-- A host without a display. -/
def host : Host where
  frames := []
  openFailure := some "no display is available"
  updateFailure := none
  periods := fun _ => 0
  noise := fun _ => 0

end Main
end Chip8

def main (words : List String) : IO UInt32 := do
  let report ← Chip8.CommandLine.run Chip8.Main.disk Chip8.Main.host words
  IO.print report.stdout
  IO.eprint report.stderr
  return UInt32.ofNat report.exitCode
