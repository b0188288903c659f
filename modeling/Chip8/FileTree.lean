import Chip8.Error
import Chip8.Rom

namespace Chip8

/-!
# Files

A tree of directories and files with the rules by which a path is followed:
component by component, so that the first component that is missing, too long
or no directory decides the error.  A name may have 255 bytes and a path must
stay below 4096.  A path that does not begin at the root begins in the working
directory, and above the root there is only the root.
-/

/-- Names from the top of the tree down. -/
abbrev Location := List String

/-- What a path can lead to.  The entries of a directory have different names. -/
inductive Node where
  | file (bytes : Array UInt8)
  | directory (entries : List (String × Node))

namespace Node

/-- A file has no entries. -/
def entries : Node → List (String × Node)
  | .file _ => []
  | .directory entries => entries

def child? (node : Node) (name : String) : Option Node :=
  node.entries.lookup name

/-- Makes or replaces an entry of a directory, which may take the place of a file. -/
def setChild (node : Node) (name : String) (entry : Node) : Node :=
  .directory ((name, entry) :: node.entries.filter fun old => old.1 != name)

/-- The node at a location, seen from a directory. -/
def find? : Location → Node → Option Node
  | [], node => some node
  | name :: rest, node => (node.child? name).bind (find? rest)

/-- Puts a node at a location and makes the directories that lead there. -/
def put (new : Node) : Location → Node → Node
  | [], _ => new
  | name :: rest, node =>
      node.setChild name (put new rest ((node.child? name).getD (.directory [])))

end Node

structure FileTree where
  root : Node
  /-- Where relative paths start. -/
  workingDirectory : Location

namespace FileTree

def node? (tree : FileTree) (location : Location) : Option Node :=
  Node.find? location tree.root

/-- Makes a directory and those above it. -/
def makeDirectory (tree : FileTree) (location : Location) : FileTree :=
  match tree.node? location with
  | some (.directory _) => tree
  | _ => { tree with root := Node.put (.directory []) location tree.root }

/-- No files, and the directories that lead to the working directory. -/
def empty (workingDirectory : Location) : FileTree :=
  makeDirectory ⟨.directory [], workingDirectory⟩ workingDirectory

/-- Writes a file and makes the directories above it. -/
def write (tree : FileTree) (location : Location) (bytes : Array UInt8) : FileTree :=
  { tree with root := Node.put (.file bytes) location tree.root }

/-! ## Following a path -/

def nameLimit : Nat := 255
def pathLimit : Nat := 4096

/-- The location that a component leads to. -/
def next (location : Location) : Path.Component → Location
  | .root => []
  | .here => location
  | .parent => location.dropLast
  | .name text => location ++ [text]

/-- Goes from a directory to one of its entries, which may be missing. -/
def enter (location : Location) (component : Path.Component) : Except IoError Location :=
  match component with
  | .name text =>
      if nameLimit < text.utf8ByteSize then .error .nameTooLong
      else .ok (next location component)
  | _ => .ok (next location component)

/-- Follows all components but the last, which have to lead to directories. -/
def follow (tree : FileTree) (location : Location) (component : Path.Component) :
    List Path.Component → Except IoError (Location × Path.Component)
  | [] => .ok (location, component)
  | later :: rest => do
      let reached ← enter location component
      match tree.node? reached with
      | some (.directory _) => follow tree reached later rest
      | some (.file _) => throw .notADirectory
      | none => throw .noSuchFile

/-- The directory that a path leads to and the component that is left. -/
def locate (tree : FileTree) (path : String) :
    Except IoError (Location × Path.Component) :=
  if path.contains '\x00' then .error .nulInPath
  else if pathLimit ≤ path.utf8ByteSize then .error .nameTooLong
  else
    match Path.steps path with
    | [] => .error .noSuchFile
    | first :: rest => tree.follow tree.workingDirectory first rest

/-- Reads a file. -/
def read (tree : FileTree) (path : String) : Except IoError (Array UInt8) := do
  let (directory, last) ← tree.locate path
  let location ← enter directory last
  match tree.node? location with
  | none => throw .noSuchFile
  | some (.directory _) => throw .isADirectory
  | some (.file bytes) =>
      if Path.endsInSlash path then throw .notADirectory else return bytes

/-- Creates a file or replaces its contents.  The directory it lies in has to
exist, and a name that ends in a slash names no file. -/
def create (tree : FileTree) (path : String) (bytes : Array UInt8) :
    Except IoError FileTree := do
  let (directory, last) ← tree.locate path
  if Path.endsInSlash path then throw .isADirectory
  let location ← enter directory last
  match tree.node? location with
  | some (.directory _) => throw .isADirectory
  | _ => return tree.write location bytes

/-! ## Preparing a tree -/

/-- Makes every directory that a path passes through, and tells where it ends. -/
def passThrough (tree : FileTree) (location : Location) :
    List Path.Component → FileTree × Location
  | [] => (tree, location)
  | component :: rest =>
      passThrough (tree.makeDirectory location) (next location component) rest

/-- Puts a file where a path ends, with the directories on the way there. -/
def place (tree : FileTree) (path : String) (bytes : Array UInt8) : FileTree :=
  let (tree, location) := tree.passThrough tree.workingDirectory (Path.steps path)
  tree.write location bytes

end FileTree

namespace Rom

/-- The outcome of reading a ROM file.  A file that does not exist is an error
of its own. -/
def ofRead (path : String) : Except IoError (Array UInt8) → Except Error Rom
  | .ok bytes => .ok ⟨bytes⟩
  | .error failure =>
      if failure.kind = .notFound then .error (.fileNotFound path) else .error (.io failure)

end Rom
end Chip8
