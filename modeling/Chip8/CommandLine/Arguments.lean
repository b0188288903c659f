namespace Chip8

/-!
# Arguments

The words of a command line: up to two paths, three flags and two options with
a number.  Options may stand anywhere before a lone `--`.  Whatever the grammar
does not allow is refused as a whole: an unknown option, a third path, an empty
path, an option given twice, and a number that is missing, malformed or out of
its range.
-/

structure Arguments where
  romPath : Option String
  outputPath : Option String
  disassemble : Bool
  hexDump : Bool
  debug : Bool
  scale : Option Nat
  speed : Option Nat
  deriving DecidableEq, Repr

namespace Arguments

/-- Nothing is asked for. -/
def blank : Arguments where
  romPath := none
  outputPath := none
  disassemble := false
  hexDump := false
  debug := false
  scale := none
  speed := none

inductive Flag where
  | disassemble
  | hexDump
  | debug
  deriving DecidableEq, Repr

inductive Number where
  | scale
  | speed
  deriving DecidableEq, Repr

/-- One word of the command line, before its meaning in context is known. -/
inductive Word where
  | endOfOptions
  | flag (flag : Flag)
  /-- An option with a number, which may be attached to it by `=`. -/
  | number (number : Number) (attached : Option String)
  | path (text : String)
  | unknown
  deriving DecidableEq, Repr

/-- The text before the first `=` and, if there is one, the text behind it. -/
def splitAtEquals : List Char → List Char × Option (List Char)
  | [] => ([], none)
  | '=' :: rest => ([], some rest)
  | c :: rest =>
      let (name, value) := splitAtEquals rest
      (c :: name, value)

/-- A lone dash is a path; every other word that begins with one is an option. -/
def word (text : String) : Word :=
  match text.toList with
  | '-' :: '-' :: [] => .endOfOptions
  | '-' :: '-' :: rest =>
      let (name, value) := splitAtEquals rest
      match String.ofList name, value with
      | "hex-dump", none => .flag .hexDump
      | "debug", none => .flag .debug
      | "scale", value => .number .scale (value.map String.ofList)
      | "speed", value => .number .speed (value.map String.ofList)
      | _, _ => .unknown
  | ['-', 'd'] => .flag .disassemble
  | '-' :: _ :: _ => .unknown
  | _ => .path text

/-- The number that decimal digits spell.  No digits spell none. -/
def decimal? (digits : List Char) : Option Nat :=
  if digits ≠ [] ∧ digits.all Char.isDigit then
    some (digits.foldl (fun total c => 10 * total + (c.toNat - '0'.toNat)) 0)
  else none

/-- A number without a minus sign: decimal digits after an optional plus. -/
def natural? : List Char → Option Nat
  | '+' :: digits => decimal? digits
  | digits => decimal? digits

/-- A number with either sign or none. -/
def integer? : List Char → Option Int
  | '-' :: digits => (decimal? digits).map fun value => -(value : Int)
  | text => (natural? text).map fun value => (value : Int)

/-- The first number that is too large for an option. -/
def Number.limit : Number → Nat
  | .scale => UInt64.size
  | .speed => UInt32.size

/-- The number that a text spells for an option.  A scale is written without a
minus sign.  A speed is an integer that must lie in its range, so zero may carry
a minus sign and no other speed may. -/
def Number.read? (number : Number) (text : String) : Option Nat := do
  let value ←
    match number with
    | .scale => natural? text.toList
    | .speed => (integer? text.toList).bind Int.toNat?
  if value < number.limit then some value else none

/-- Sets a flag, which may be given once. -/
def raise (arguments : Arguments) : Flag → Option Arguments
  | .disassemble =>
      if arguments.disassemble then none else some { arguments with disassemble := true }
  | .hexDump => if arguments.hexDump then none else some { arguments with hexDump := true }
  | .debug => if arguments.debug then none else some { arguments with debug := true }

/-- Sets a number, which may be given once. -/
def assign (arguments : Arguments) (number : Number) (text : String) : Option Arguments := do
  let value ← number.read? text
  match number with
  | .scale =>
      if arguments.scale.isSome then failure
      return { arguments with scale := some value }
  | .speed =>
      if arguments.speed.isSome then failure
      return { arguments with speed := some value }

/-- Adds a path: the ROM first and then the output. -/
def addPath (arguments : Arguments) (text : String) : Option Arguments :=
  if text = "" then none
  else
    match arguments.romPath, arguments.outputPath with
    | none, _ => some { arguments with romPath := some text }
    | some _, none => some { arguments with outputPath := some text }
    | some _, some _ => none

/-- Takes words into account, options included. -/
def extend (arguments : Arguments) : List String → Option Arguments
  | [] => some arguments
  | text :: rest =>
      match word text with
      | .endOfOptions => rest.foldlM addPath arguments
      | .flag flag => do extend (← arguments.raise flag) rest
      | .number number (some value) => do extend (← arguments.assign number value) rest
      | .number number none =>
          match rest with
          | [] => none
          | value :: later =>
              match word value with
              | .path _ => do extend (← arguments.assign number value) later
              | _ => none
      | .path path => do extend (← arguments.addPath path) rest
      | .unknown => none

/-- The arguments that a command line spells, if the grammar allows it. -/
def parse? (words : List String) : Option Arguments :=
  blank.extend words

end Arguments
end Chip8
