import Chip8.Proofs.Hex.FixedWidth

namespace Chip8
namespace Hex

/-!
# Numerals

A padded number is the usual numeral in base sixteen with zeros in front of it,
spelt in lower or in upper case.  Its width is only a lower bound: a number that
needs more digits keeps all of them.
-/

/-- The numeral of a number, with zeros in front up to a least width. -/
def numeral (width number : Nat) : List Char :=
  List.leftpad width '0' (Nat.toDigits 16 number)

def lowerNumeral (width number : Nat) : String :=
  String.ofList (numeral width number)

def upperNumeral (width number : Nat) : String :=
  String.ofList ((numeral width number).map Char.toUpper)

theorem spell_lower : ∀ digit : Fin 16, spell 'a' digit = Nat.digitChar digit := by
  decide

theorem spell_upper : ∀ digit : Fin 16, spell 'A' digit = (Nat.digitChar digit).toUpper := by
  decide

/-- By induction on the number, which loses its last digit in both. -/
theorem map_digitChar_digits (number : Nat) :
    (digits number).map Nat.digitChar = Nat.toDigits 16 number := by
  fun_induction digits number with
  | case1 number small =>
      rw [Nat.toDigits_of_lt_base small]
      rfl
  | case2 number large ih =>
      rw [List.map_append, ih, Nat.toDigits_of_base_le (by decide) (Nat.not_lt.mp large)]
      rfl

theorem map_digitChar_padded (width number : Nat) :
    (padded width number).map Nat.digitChar = numeral width number := by
  have length := congrArg List.length (map_digitChar_digits number)
  rw [List.length_map] at length
  rw [padded, List.map_append, List.map_replicate, map_digitChar_digits, length]
  rfl

theorem lower_eq_lowerNumeral (width number : Nat) :
    lower width number = lowerNumeral width number := by
  rw [lower, lowerNumeral, ← map_digitChar_padded]
  apply congrArg String.ofList
  apply List.map_congr_left
  intro digit member
  exact spell_lower ⟨digit, padded_lt digit member⟩

theorem upper_eq_upperNumeral (width number : Nat) :
    upper width number = upperNumeral width number := by
  rw [upper, upperNumeral, ← map_digitChar_padded, List.map_map]
  apply congrArg String.ofList
  apply List.map_congr_left
  intro digit member
  exact spell_upper ⟨digit, padded_lt digit member⟩

/-- A number below 256 has two digits. -/
theorem padded_two {number : Nat} (small : number < 256) :
    padded 2 number = [number / 16, number % 16] := by
  rw [padded_eq_fixed (by decide) small, fixed, fixed, fixed, Nat.mod_eq_of_lt (by omega)]
  rfl

end Hex
end Chip8
