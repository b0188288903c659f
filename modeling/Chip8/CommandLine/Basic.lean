import Chip8.CommandLine.Arguments
import Chip8.FileTree
import Chip8.Listing
import Chip8.Session.Basic

namespace Chip8

/-!
# The command line

The program either lists a ROM or plays it.  What it does is a function of its
arguments and of the files it can reach; the files are given as two operations
in a monad, so that a disk and a `FileTree` serve alike.
-/

/-- Reading and creating files by path. -/
structure Disk (m : Type → Type) where
  read : String → m (Except IoError (Array UInt8))
  create : String → Array UInt8 → m (Except IoError Unit)

/-- The files of a tree, as part of a state. -/
def FileTree.disk : Disk (StateM FileTree) where
  read path := do return (← get).read path
  create path bytes := do
    match (← get).create path bytes with
    | .ok tree =>
        set tree
        return .ok ()
    | .error failure => return .error failure

/-- What is left of a program that has ended. -/
structure Report where
  exitCode : Nat
  stdout : String
  stderr : String
  deriving DecidableEq, Repr

namespace Report

def success (stdout : String) : Report := ⟨0, stdout, ""⟩

/-- An error with the causes behind it. -/
def failure (text : String) (causes : List String) : Report :=
  ⟨1, "", "Error: " ++ text ++ "\n" ++
    (if causes = [] then "" else "\nCaused by:\n") ++
    String.join (causes.map fun cause => "    " ++ cause ++ "\n")⟩

def missingRom : Report := ⟨1, "", "error: no ROM path given\n\n"⟩

def usage : Report :=
  ⟨2, "", "error: invalid arguments\n\n" ++
    "Usage: [OPTIONS] [ROM_PATH] [ASM_OUTPUT]\n"⟩

/-- The program was stopped by a fault. -/
def fault : Report := ⟨101, "", "arithmetic fault\n"⟩

def ofEnding : Ending → Report
  | .closed => success ""
  | .failed [] => failure "" []
  | .failed (text :: causes) => failure text causes
  | .fault _ => fault

end Report

namespace CommandLine

/-- The text that a listing leaves on standard output. -/
def dumpText (rom : Rom) : String :=
  "\nHEX DUMP\n" ++ Listing.text (Listing.dump rom)

def settings (romPath : String) (arguments : Arguments) : Settings :=
  (((Settings.forRom romPath).withScale (arguments.scale.getD Settings.defaultScale)).withSpeed
    (arguments.speed.getD Settings.defaultSpeed)).withDebug arguments.debug

/-- Lists a ROM, to a file if a path is given and to standard output if not.
The dump always goes to standard output. -/
def list [Monad m] (disk : Disk m) (rom : Rom) (arguments : Arguments) : m Report := do
  let listing := Listing.text (Listing.disassembly rom)
  let dump := if arguments.hexDump then dumpText rom else ""
  match arguments.outputPath with
  | none => return .success (listing ++ dump)
  | some path =>
      match ← disk.create path (Listing.asciiBytes listing).toArray with
      | .ok () => return .success dump
      | .error failure => return .failure ("could not create " ++ path) [failure.message]

/-- Does what the arguments ask for. -/
def perform [Monad m] (disk : Disk m) (host : Host) (arguments : Arguments) : m Report := do
  match arguments.romPath with
  | none => return .missingRom
  | some path =>
      match Rom.ofRead path (← disk.read path) with
      | .error failure => return .failure failure.message []
      | .ok rom =>
          if arguments.disassemble then list disk rom arguments
          else return .ofEnding (Session.run (settings path arguments) rom host).ending

/-- Runs the program with the words of its command line. -/
def run [Monad m] (disk : Disk m) (host : Host) (words : List String) : m Report :=
  match Arguments.parse? words with
  | none => return .usage
  | some arguments => perform disk host arguments

end CommandLine
end Chip8
