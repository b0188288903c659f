namespace Chip8
namespace Path

/-!
# Path text

A path is kept as it was typed.  Two texts name the same path when they have
the same components: repeated and trailing slashes and every `.` but a leading
one are left out, the root is kept, and `..` is never resolved here.
-/

inductive Component where
  | root
  | here
  | parent
  | name (text : String)
  deriving DecidableEq, Repr

/-- The pieces between slashes, empty ones included. -/
def pieces : List Char → List (List Char)
  | [] => [[]]
  | '/' :: rest => [] :: pieces rest
  | c :: rest =>
      match pieces rest with
      | [] => [[c]]
      | first :: others => (c :: first) :: others

/-- A piece as a component; empty pieces have none. -/
def component? (piece : List Char) : Option Component :=
  if piece = [] then none
  else if piece = ['.'] then some .here
  else if piece = ['.', '.'] then some .parent
  else some (.name (String.ofList piece))

/-- The components as typed, with every `.`. -/
def steps (path : String) : List Component :=
  match path.toList with
  | '/' :: rest => .root :: (pieces rest).filterMap component?
  | cs => (pieces cs).filterMap component?

/-- The components that tell paths apart: a `.` counts only at the front. -/
def components (path : String) : List Component :=
  match steps path with
  | [] => []
  | first :: rest => first :: rest.filter (· != .here)

/-- The text ends in a slash, which asks for a directory. -/
def endsInSlash (path : String) : Bool :=
  path.toList.getLast? == some '/'

/-- Both texts name the same path. -/
def same (a b : String) : Bool :=
  components a == components b

end Path
end Chip8
