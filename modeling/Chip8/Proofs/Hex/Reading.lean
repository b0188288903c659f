import Chip8.Proofs.Hex.FixedWidth

namespace Chip8

/-!
# Numbers read back

A number is read from its digits one by one, and zeros in front of it do not count.
So it is read back from every width, and its width tells only how long it can be.
A part of its digits reads as a quotient and a remainder.
-/

theorem mapM_eq_some {α β : Type} {read : α → Option β} {value : α → β} {items : List α}
    (each : ∀ item ∈ items, read item = some (value item)) :
    items.mapM read = some (items.map value) := by
  induction items with
  | nil => rfl
  | cons item rest ih =>
      rw [List.mapM_cons, each item (.head _), ih fun later member => each later (.tail _ member)]
      rfl

namespace Hex

/-- A number has a first digit, also when it is padded. -/
theorem exists_padded_cons (width number : Nat) :
    ∃ digit rest, padded width number = digit :: rest ∧ digit < 16 := by
  cases spelt : padded width number with
  | nil =>
      have none := (List.append_eq_nil_iff.mp spelt).2
      rw [digits] at none
      split at none
      · cases none
      · exact absurd none (by simp)
  | cons digit rest =>
      exact ⟨digit, rest, rfl, padded_lt digit (spelt ▸ List.mem_cons_self)⟩

theorem digit?_spell : ∀ digit : Fin 16, digit? (spell 'A' digit) = some digit.val := by
  decide

/-- The number that a word of digits spells. -/
def number? (word : List Char) : Option Nat :=
  (word.mapM digit?).map value

theorem value_zeros (count : Nat) (ds : List Nat) :
    value (List.replicate count 0 ++ ds) = value ds := by
  induction count with
  | zero => rfl
  | succ count ih => exact ih

theorem value_padded (width number : Nat) : value (padded width number) = number := by
  rw [padded, value_zeros, value_digits]

theorem number?_upper (width number : Nat) :
    number? (upper width number).toList = some number := by
  have read : (padded width number).mapM (digit? ∘ spell 'A') =
      some ((padded width number).map id) := by
    apply mapM_eq_some
    intro digit member
    exact digit?_spell ⟨digit, padded_lt digit member⟩
  rw [number?, upper, String.toList_ofList, List.mapM_map, read, List.map_id]
  exact congrArg some (value_padded width number)

theorem length_fixed (width number : Nat) : (fixed width number).length = width := by
  induction width generalizing number with
  | zero => rfl
  | succ width ih => rw [fixed, List.length_append, ih, List.length_singleton]

/-- A number has no more digits than it needs or is asked to have. -/
theorem length_upper_le {width most number : Nat} (asked : width ≤ most) (positive : 0 < most)
    (fits : number < 16 ^ most) : (upper width number).length ≤ most := by
  have needed := congrArg List.length (padded_eq_fixed positive fits)
  rw [length_fixed, padded, List.length_append, List.length_replicate] at needed
  rw [← String.length_toList, upper, String.toList_ofList, List.length_map, padded,
    List.length_append, List.length_replicate]
  omega

/-! ## Parts of a number -/

/-- By induction on the second part, whose first digit goes over to the first part. -/
theorem value_append (front back : List Nat) :
    value (front ++ back) = value front * 16 ^ back.length + value back := by
  induction back generalizing front with
  | nil => simp [value]
  | cons digit back ih =>
      have moved : front ++ digit :: back = (front ++ [digit]) ++ back := List.append_cons ..
      have alone : value (digit :: back) = digit * 16 ^ back.length + value back := by
        simpa [value] using ih [digit]
      calc value (front ++ digit :: back)
          = (16 * value front + digit) * 16 ^ back.length + value back := by
            rw [moved, ih, value_append_singleton]
        _ = value front * 16 ^ (digit :: back).length + value (digit :: back) := by
            rw [alone, List.length_cons, Nat.pow_succ', Nat.add_mul, Nat.mul_assoc,
              Nat.mul_left_comm, Nat.add_assoc]

theorem fixed_add (front back number : Nat) :
    fixed (front + back) number = fixed front (number / 16 ^ back) ++ fixed back number := by
  induction back generalizing number with
  | zero => rw [Nat.pow_zero, Nat.div_one, fixed, List.append_nil, Nat.add_zero]
  | succ back ih =>
      rw [← Nat.add_assoc, fixed, ih, fixed, List.append_assoc, Nat.div_div_eq_div_mul,
        ← Nat.pow_succ']

theorem value_fixed (width number : Nat) : value (fixed width number) = number % 16 ^ width := by
  induction width generalizing number with
  | zero => rw [Nat.pow_zero, Nat.mod_one]; rfl
  | succ width ih =>
      rw [fixed, value_append_singleton, ih, Nat.pow_succ', Nat.mod_mul]
      exact Nat.add_comm _ _

/-- The digits behind a part are divided off, and those in front of it are not looked
at. -/
theorem take_drop_fixed {width before count : Nat} (inside : before + count ≤ width)
    (number : Nat) :
    ((fixed width number).drop before).take count =
      fixed count (number / 16 ^ (width - before - count)) := by
  rcases Nat.exists_eq_add_of_le inside with ⟨behind, rfl⟩
  have parts : fixed (before + count + behind) number =
      fixed before (number / 16 ^ behind / 16 ^ count) ++
        (fixed count (number / 16 ^ behind) ++ fixed behind number) := by
    rw [fixed_add, fixed_add, List.append_assoc]
  have rest : before + count + behind - before - count = behind := by omega
  rw [parts, List.drop_left' (length_fixed before _), List.take_left' (length_fixed count _), rest]

end Hex
end Chip8
