namespace Chip8
namespace Hex

/-!
# Hexadecimal text

Addresses, opcodes and bytes are written in base sixteen.  A number is first
split into digits, most significant first, and the digits are then spelt in
upper or lower case.  Padding adds leading zeros up to a least width and never
cuts a digit, so `value` recovers the number from every spelling.
-/

/-- The digits of a number, most significant first.  Zero has one digit. -/
def digits (number : Nat) : List Nat :=
  if number < 16 then [number] else digits (number / 16) ++ [number % 16]
termination_by number
decreasing_by omega

/-- The number that a list of digits denotes, most significant first. -/
def value (ds : List Nat) : Nat :=
  ds.foldl (fun total digit => 16 * total + digit) 0

theorem value_append_singleton (ds : List Nat) (digit : Nat) :
    value (ds ++ [digit]) = 16 * value ds + digit := by
  simp [value]

theorem value_digits (number : Nat) : value (digits number) = number := by
  fun_induction digits number with
  | case1 number small => simp [value]
  | case2 number large ih =>
      rw [value_append_singleton, ih]
      omega

theorem digits_lt (number : Nat) : ∀ digit ∈ digits number, digit < 16 := by
  fun_induction digits number with
  | case1 number small => simpa using small
  | case2 number large ih =>
      intro digit member
      rcases List.mem_append.mp member with earlier | last
      · exact ih digit earlier
      · rw [List.mem_singleton.mp last]
        omega

/-- The digits of a number with leading zeros up to a least width. -/
def padded (width number : Nat) : List Nat :=
  List.replicate (width - (digits number).length) 0 ++ digits number

/-- The character of a digit, with letters from `letterA` on. -/
def spell (letterA : Char) (digit : Nat) : Char :=
  if digit < 10 then Char.ofNat ('0'.toNat + digit)
  else Char.ofNat (letterA.toNat + (digit - 10))

/-- The digit that a character spells, in either case. -/
def digit? (c : Char) : Option Nat :=
  if '0' ≤ c ∧ c ≤ '9' then some (c.toNat - '0'.toNat)
  else if 'A' ≤ c ∧ c ≤ 'F' then some (c.toNat - 'A'.toNat + 10)
  else if 'a' ≤ c ∧ c ≤ 'f' then some (c.toNat - 'a'.toNat + 10)
  else none

/-- A number in upper case, with at least `width` digits. -/
def upper (width number : Nat) : String :=
  String.ofList ((padded width number).map (spell 'A'))

/-- A number in lower case, with at least `width` digits. -/
def lower (width number : Nat) : String :=
  String.ofList ((padded width number).map (spell 'a'))

end Hex
end Chip8
