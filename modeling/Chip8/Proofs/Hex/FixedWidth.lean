import Chip8.Hex
import Mathlib.Algebra.Group.Nat.Defs

namespace Chip8
namespace Hex

/-!
# Numbers of a fixed width

Padding adds the digits that a number lacks, and a number that fits a width has
no digit too many.  So it is written with exactly that many digits, each of them
a quotient and a remainder.
-/

/-- The digits in upper case, in order. -/
def capitals : List Char := "0123456789ABCDEF".toList

/-- The lowest digits of a number, most significant first. -/
def fixed : Nat → Nat → List Nat
  | 0, _ => []
  | width + 1, number => fixed width (number / 16) ++ [number % 16]

/-- A number in upper case, with exactly `width` digits. -/
def fixedUpper (width number : Nat) : String :=
  String.ofList ((fixed width number).map (capitals.getD · ' '))

theorem digits_of_lt {number : Nat} (small : number < 16) : digits number = [number] := by
  rw [digits, if_pos small]

theorem digits_of_ge {number : Nat} (large : 16 ≤ number) :
    digits number = digits (number / 16) ++ [number % 16] := by
  rw [digits, if_neg (Nat.not_lt.mpr large)]

theorem padded_lt {width number : Nat} : ∀ digit ∈ padded width number, digit < 16 := by
  intro digit member
  rcases List.mem_append.mp member with leading | member
  · rw [List.eq_of_mem_replicate leading]
    decide
  · exact digits_lt number digit member

theorem fixed_zero (width : Nat) : fixed width 0 = List.replicate width 0 := by
  induction width with
  | zero => rfl
  | succ width ih => rw [fixed, ih, List.replicate_succ']

/-- By induction on the width, which loses a digit together with the number. -/
theorem padded_eq_fixed {width number : Nat} (positive : 0 < width) (fits : number < 16 ^ width) :
    padded width number = fixed width number := by
  induction width generalizing number with
  | zero => exact absurd positive (Nat.lt_irrefl 0)
  | succ width ih =>
      rcases Nat.lt_or_ge number 16 with small | large
      · rw [padded, digits_of_lt small, fixed, Nat.div_eq_of_lt small, Nat.mod_eq_of_lt small,
          fixed_zero]
        rfl
      · have shorter : number / 16 < 16 ^ width :=
          Nat.div_lt_of_lt_mul (by rwa [Nat.pow_succ'] at fits)
        have wide : 0 < width := by
          rcases Nat.eq_zero_or_pos width with rfl | wide
          · omega
          · exact wide
        rw [fixed, ← ih wide shorter, padded, padded, digits_of_ge large, List.length_append,
          List.length_singleton, Nat.add_sub_add_right, List.append_assoc]

theorem spell_eq_capital : ∀ digit : Fin 16, spell 'A' digit = capitals.getD digit ' ' := by
  decide

theorem spell_mem_capitals : ∀ digit : Fin 16, spell 'A' digit ∈ capitals := by
  decide

theorem upper_eq_fixedUpper {width number : Nat} (positive : 0 < width)
    (fits : number < 16 ^ width) : upper width number = fixedUpper width number := by
  rw [upper, fixedUpper, ← padded_eq_fixed positive fits]
  refine congrArg String.ofList (List.map_congr_left ?_)
  intro digit member
  exact spell_eq_capital ⟨digit, padded_lt digit member⟩

/-- Every character of a number is a digit. -/
theorem mem_capitals_of_mem_upper {width number : Nat} {c : Char}
    (member : c ∈ (upper width number).toList) : c ∈ capitals := by
  rw [upper, String.toList_ofList] at member
  rcases List.mem_map.mp member with ⟨digit, listed, rfl⟩
  exact spell_mem_capitals ⟨digit, padded_lt digit listed⟩

end Hex
end Chip8
