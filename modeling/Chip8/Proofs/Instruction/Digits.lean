import Chip8.Opcode
import Chip8.Proofs.Hex.Reading

namespace Chip8

/-!
# The digits of an opcode

A run of digits is a part of the four digits that an opcode is written with.  The
digits behind a run tell how far the word is shifted, and their number can be counted
in bytes exactly if the run lies inside the opcode.  Nothing else overflows then: the
mask and both shifts stay inside their words, and the number that is cut out is the
one that the digits of the run spell.

On numbers this is a quotient and a remainder by powers of sixteen, and the operand
fields are the runs of digits at their places.  Runs that follow each other are put
together as their digits are.
-/

/-! ## Words -/

namespace Word

variable {width : Nat} {a b : BitVec width} {x y : Nat}

theorem sub_of_lt (left : a.toNat = x) (right : b.toNat = y) (below : x < y) :
    sub a b = .error .overflow := by
  subst left right
  exact if_pos (decide_eq_true below)

theorem exists_sub (left : a.toNat = x) (right : b.toNat = y) (fits : y ≤ x) :
    ∃ difference, sub a b = .ok difference ∧ difference.toNat = x - y := by
  subst left right
  have within : ¬a.usubOverflow b := by
    simpa [BitVec.usubOverflow] using fits
  exact ⟨a - b, if_neg within, BitVec.toNat_sub_of_not_usubOverflow within⟩

theorem exists_mul (left : a.toNat = x) (right : b.toNat = y) (fits : x * y < 2 ^ width) :
    ∃ product, mul a b = .ok product ∧ product.toNat = x * y := by
  subst left right
  have within : ¬a.umulOverflow b := by
    simpa [BitVec.umulOverflow] using fits
  exact ⟨a * b, if_neg within, BitVec.toNat_mul_of_not_umulOverflow within⟩

theorem shiftLeft_of_lt {places : Nat} (inside : places < width) :
    shiftLeft a places = .ok (a <<< places) :=
  if_pos inside

theorem shiftRight_of_lt {places : Nat} (inside : places < width) :
    shiftRight a places = .ok (a >>> places) :=
  if_pos inside

/-- Some bits of a word are a quotient and a remainder by powers of two. -/
theorem toNat_shiftRight_and {places bits : Nat} (ones : b.toNat = 2 ^ bits - 1) :
    (a >>> places &&& b).toNat = a.toNat / 2 ^ places % 2 ^ bits := by
  rw [BitVec.toNat_and, BitVec.toNat_ushiftRight, ones, Nat.and_two_pow_sub_one_eq_mod,
    Nat.shiftRight_eq_div_pow]

end Word

namespace Opcode

/-! ## Runs -/

/-- The digits that an opcode is written with. -/
def digits (opcode : Opcode) : List Nat :=
  Hex.padded 4 opcode.toNat

/-- The `count` digits from digit `first` on. -/
def run (opcode : Opcode) (first count : Nat) : List Nat :=
  (opcode.digits.drop (first - 1)).take count

/-- The run begins at the first digit or later and ends at the fourth or earlier. -/
def Inside (first count : Nat) : Prop :=
  1 ≤ first ∧ first + count ≤ 5

instance (first count : Nat) : Decidable (Inside first count) :=
  inferInstanceAs (Decidable (_ ∧ _))

section Numbers

variable (opcode : Opcode) {first count : Nat}

theorem digits_eq_fixed : opcode.digits = Hex.fixed 4 opcode.toNat :=
  Hex.padded_eq_fixed (by decide) opcode.toNat_lt

theorem run_eq_fixed (inside : Inside first count) :
    opcode.run first count = Hex.fixed count (opcode.toNat / 16 ^ (5 - first - count)) := by
  rcases inside with ⟨positive, ends⟩
  have behind : 4 - (first - 1) - count = 5 - first - count := by omega
  rw [run, digits_eq_fixed, Hex.take_drop_fixed (by omega), behind]

theorem length_run (inside : Inside first count) : (opcode.run first count).length = count := by
  rw [run_eq_fixed opcode inside, Hex.length_fixed]

/-- A run is a quotient and a remainder by powers of sixteen. -/
theorem value_run (inside : Inside first count) :
    Hex.value (opcode.run first count) =
      opcode.toNat / 16 ^ (5 - first - count) % 16 ^ count := by
  rw [run_eq_fixed opcode inside, Hex.value_fixed]

theorem run_add (positive : 1 ≤ first) (front back : Nat) :
    opcode.run first (front + back) =
      opcode.run first front ++ opcode.run (first + front) back := by
  have next : first - 1 + front = first + front - 1 := by omega
  rw [run, List.take_add, List.drop_drop, next]
  rfl

/-- A run in two parts has the number of the first part, moved to the left by the length
of the second, and the number of the second. -/
theorem value_run_add {front back : Nat} (inside : Inside first (front + back)) :
    Hex.value (opcode.run first (front + back)) =
      Hex.value (opcode.run first front) * 16 ^ back +
        Hex.value (opcode.run (first + front) back) := by
  rcases inside with ⟨positive, ends⟩
  have rest : Inside (first + front) back := ⟨by omega, by omega⟩
  rw [run_add opcode positive, Hex.value_append, length_run opcode rest]

end Numbers

/-! ## Cutting -/

section Words

variable {first count : UInt8}

theorem exists_placesBehind (inside : Inside first.toNat count.toNat) :
    ∃ places, placesBehind first count = .ok places ∧
      places.toNat = 4 * (5 - first.toNat - count.toNat) := by
  rcases inside with ⟨positive, ends⟩
  have four : (4 : BitVec 8).toNat = 4 := rfl
  have one : (1 : BitVec 8).toNat = 1 := rfl
  rcases Word.exists_sub four count.toNat_toBitVec (by omega) with ⟨others, othersEq, othersVal⟩
  rcases Word.exists_sub first.toNat_toBitVec one positive with ⟨before, beforeEq, beforeVal⟩
  rcases Word.exists_sub othersVal beforeVal (by omega) with ⟨behind, behindEq, behindVal⟩
  rcases Word.exists_mul behindVal four (by omega) with ⟨places, placesEq, placesVal⟩
  refine ⟨places, ?_, by omega⟩
  simp only [placesBehind, othersEq, beforeEq, behindEq, placesEq, bind, Except.bind]

/-- Outside of the opcode one of the three differences is below zero. -/
theorem placesBehind_of_not_inside (outside : ¬Inside first.toNat count.toNat) :
    placesBehind first count = .error .overflow := by
  have four : (4 : BitVec 8).toNat = 4 := rfl
  have one : (1 : BitVec 8).toNat = 1 := rfl
  rcases Nat.lt_or_ge 4 count.toNat with long | short
  · rw [placesBehind, Word.sub_of_lt four count.toNat_toBitVec long]
    rfl
  rcases Word.exists_sub four count.toNat_toBitVec short with ⟨others, othersEq, othersVal⟩
  rcases Nat.lt_or_ge first.toNat 1 with zero | positive
  · rw [placesBehind, othersEq, Word.sub_of_lt first.toNat_toBitVec one zero]
    rfl
  rcases Word.exists_sub first.toNat_toBitVec one positive with ⟨before, beforeEq, beforeVal⟩
  have below : 4 - count.toNat < first.toNat - 1 := by
    unfold Inside at outside
    omega
  rw [placesBehind, othersEq, beforeEq]
  simp only [Word.sub_of_lt othersVal beforeVal below, bind, Except.bind]

theorem exists_mask (short : count.toNat ≤ 4) :
    ∃ ones, mask count = .ok ones ∧ ones.toNat = 2 ^ (4 * count.toNat) - 1 := by
  have four : (4 : BitVec 8).toNat = 4 := rfl
  have one : (1 : BitVec 32).toNat = 1 := rfl
  rcases Word.exists_mul count.toNat_toBitVec four (by omega) with ⟨places, placesEq, placesVal⟩
  have inWord : places.toNat < 32 := by omega
  have above : ((1 : BitVec 32) <<< places.toNat).toNat = 2 ^ (4 * count.toNat) := by
    rw [BitVec.toNat_shiftLeft, one, Nat.one_shiftLeft, Nat.mul_comm 4, ← placesVal]
    exact Nat.mod_eq_of_lt (Nat.pow_lt_pow_right (by decide) inWord)
  rcases Word.exists_sub above one (Nat.two_pow_pos _) with ⟨ones, onesEq, onesVal⟩
  refine ⟨ones, ?_, onesVal⟩
  simp only [mask, placesEq, Word.shiftLeft_of_lt inWord, onesEq, bind, Except.bind]

/-- The number that is left under the mask is no greater than the opcode, so it fits an
opcode again. -/
theorem exists_cut (opcode : Opcode) (inside : Inside first.toNat count.toNat) :
    ∃ number, opcode.cut first count = .ok number ∧
      number.toNat = Hex.value (opcode.run first.toNat count.toNat) := by
  have short : count.toNat ≤ 4 := by
    unfold Inside at inside
    omega
  rcases exists_placesBehind inside with ⟨places, placesEq, placesVal⟩
  rcases exists_mask short with ⟨ones, onesEq, onesVal⟩
  have inWord : places.toNat < 32 := by omega
  let word := opcode.toBitVec.setWidth 32
  have cutEq : opcode.cut first count =
      .ok ⟨(word >>> places.toNat &&& ones).setWidth 16⟩ := by
    rw [cut, placesEq, onesEq]
    simp only [Word.shiftRight_of_lt inWord, bind, Except.bind]
    rfl
  have widened : word.toNat = opcode.toNat := by
    rw [BitVec.toNat_setWidth]
    exact Nat.mod_eq_of_lt (Nat.lt_trans opcode.toNat_lt (by decide))
  have masked : (word >>> places.toNat &&& ones).toNat =
      opcode.toNat / 16 ^ (5 - first.toNat - count.toNat) % 16 ^ count.toNat := by
    rw [Word.toNat_shiftRight_and onesVal, widened, placesVal, Nat.pow_mul, Nat.pow_mul]
  have fits : (word >>> places.toNat &&& ones).toNat < 2 ^ 16 := by
    rw [masked]
    exact Nat.lt_of_le_of_lt (Nat.le_trans (Nat.mod_le ..) (Nat.div_le_self ..)) opcode.toNat_lt
  refine ⟨_, cutEq, ?_⟩
  rw [UInt16.toNat_ofBitVec, BitVec.toNat_setWidth, Nat.mod_eq_of_lt fits, masked,
    value_run opcode inside]

theorem cut_of_not_inside (opcode : Opcode) (outside : ¬Inside first.toNat count.toNat) :
    opcode.cut first count = .error .overflow := by
  rw [cut, placesBehind_of_not_inside outside]
  rfl

/-- A run is cut exactly if it lies inside the opcode, and then the number is the one
that its digits spell. -/
theorem cut_eq_ok_iff (opcode : Opcode) {number : UInt16} :
    opcode.cut first count = .ok number ↔ Inside first.toNat count.toNat ∧
      number.toNat = Hex.value (opcode.run first.toNat count.toNat) := by
  by_cases inside : Inside first.toNat count.toNat
  · rcases exists_cut opcode inside with ⟨result, cutEq, resultVal⟩
    rw [cutEq, ← resultVal, Except.ok.injEq, ← UInt16.toNat_inj]
    simp only [inside, true_and, eq_comm]
  · rw [cut_of_not_inside opcode inside]
    simp only [inside, false_and, reduceCtorEq]

theorem cut_eq_error_iff (opcode : Opcode) {fault : Fault} :
    opcode.cut first count = .error fault ↔
      fault = .overflow ∧ ¬Inside first.toNat count.toNat := by
  by_cases inside : Inside first.toNat count.toNat
  · rcases exists_cut opcode inside with ⟨number, cutEq, -⟩
    simp only [cutEq, inside, not_true_eq_false, and_false, reduceCtorEq]
  · simp only [cut_of_not_inside opcode inside, inside, not_false_eq_true, and_true,
      Except.error.injEq, eq_comm]

/-- Both parts of a run that is cut lie inside the opcode, so the place of the second
part is counted exactly. -/
theorem exists_cut_parts (opcode : Opcode) {whole : UInt16} {front back : UInt8}
    (cutEq : opcode.cut first count = .ok whole)
    (lengths : front.toNat + back.toNat = count.toNat) :
    ∃ left right, opcode.cut first front = .ok left ∧
      opcode.cut (first + front) back = .ok right ∧
      whole.toNat = left.toNat * 16 ^ back.toNat + right.toNat := by
  rcases (cut_eq_ok_iff opcode).mp cutEq with ⟨inside, wholeVal⟩
  rw [← lengths] at inside wholeVal
  rcases inside with ⟨positive, ends⟩
  have next : (first + front).toNat = first.toNat + front.toNat := by
    rw [UInt8.toNat_add]
    exact Nat.mod_eq_of_lt (by omega)
  have leftInside : Inside first.toNat front.toNat := ⟨positive, by omega⟩
  have rightInside : Inside (first + front).toNat back.toNat := by
    rw [next]
    exact ⟨by omega, by omega⟩
  rcases exists_cut opcode leftInside with ⟨left, leftEq, leftVal⟩
  rcases exists_cut opcode rightInside with ⟨right, rightEq, rightVal⟩
  refine ⟨left, right, leftEq, rightEq, ?_⟩
  rw [wholeVal, value_run_add opcode ⟨positive, ends⟩, leftVal, rightVal, next]

end Words

/-! ## Operand fields -/

/-- The number of a field is that of its digits. -/
theorem field_eq (opcode : Opcode) {first count : UInt8}
    (inside : Inside first.toNat count.toNat) :
    opcode.field first count =
      opcode.toNat / 16 ^ (5 - first.toNat - count.toNat) % 16 ^ count.toNat := by
  rcases exists_cut opcode inside with ⟨number, cutEq, numberVal⟩
  rw [field, cutEq]
  dsimp only
  rw [numberVal, value_run opcode inside]

theorem digit_val (opcode : Opcode) {place : UInt8} (inside : Inside place.toNat 1) :
    (opcode.digit place).val = opcode.toNat / 16 ^ (5 - place.toNat - 1) % 16 := by
  rw [digit, Fin.val_ofNat, field_eq opcode inside]
  exact Nat.mod_mod _ _

theorem identifier_val (opcode : Opcode) :
    opcode.identifier.val = opcode.toNat / 0x1000 % 0x10 :=
  opcode.digit_val (by decide)

theorem x_val (opcode : Opcode) : opcode.x.val = opcode.toNat / 0x100 % 0x10 :=
  opcode.digit_val (by decide)

theorem y_val (opcode : Opcode) : opcode.y.val = opcode.toNat / 0x10 % 0x10 :=
  opcode.digit_val (by decide)

theorem n_val (opcode : Opcode) : opcode.n.val = opcode.toNat % 0x10 := by
  rw [← Nat.div_one opcode.toNat]
  exact opcode.digit_val (by decide)

theorem kk_toNat (opcode : Opcode) : opcode.kk.toNat = opcode.toNat % 0x100 := by
  rw [← Nat.div_one opcode.toNat, kk, UInt8.toNat_ofNat', field_eq opcode (by decide)]
  exact Nat.mod_mod _ _

theorem nnn_val (opcode : Opcode) : opcode.nnn.val = opcode.toNat % 0x1000 := by
  rw [← Nat.div_one opcode.toNat]
  change opcode.field 2 3 % 4096 = _
  rw [field_eq opcode (by decide)]
  exact Nat.mod_mod _ _

/-! ## Exactness -/

theorem not_inside_iff {first count : UInt8} :
    ¬Inside first.toNat count.toNat ↔
      first = 0 ∨ 4 < (count.toNat + first.toNat - 1 : Int) := by
  have zero : first = 0 ↔ first.toNat = 0 := UInt8.toNat_inj.symm
  rw [zero]
  unfold Inside
  omega

/-- **Runs of digits are cut exactly.**  A run is a fault exactly if it begins before
the first digit or ends after the fourth, counted in numbers that do not wrap, and the
fault is an overflow.  Every other run is cut, and its number is the one that its digits
spell.  Wherever it is divided, both parts are cut as well, and their numbers put side by
side are its number. -/
theorem runs_are_cut_exactly (opcode : Opcode) (first count : UInt8) :
    (∀ fault, opcode.cut first count = .error fault ↔
      fault = .overflow ∧ (first = 0 ∨ 4 < (count.toNat + first.toNat - 1 : Int))) ∧
    (¬(first = 0 ∨ 4 < (count.toNat + first.toNat - 1 : Int)) →
      ∃ number, opcode.cut first count = .ok number ∧
        number.toNat = Hex.value (opcode.run first.toNat count.toNat) ∧
        number.toNat =
          opcode.toNat / 16 ^ (5 - count.toNat - first.toNat) % 16 ^ count.toNat) ∧
    ∀ whole, opcode.cut first count = .ok whole →
      ∀ front back : UInt8, front.toNat + back.toNat = count.toNat →
        ∃ left right, opcode.cut first front = .ok left ∧
          opcode.cut (first + front) back = .ok right ∧
          whole.toNat = left.toNat * 16 ^ back.toNat + right.toNat := by
  rw [← not_inside_iff]
  refine ⟨?faults, ?numbers, ?parts⟩
  case faults =>
    intro fault
    exact cut_eq_error_iff opcode
  case numbers =>
    intro defined
    have inside := Decidable.not_not.mp defined
    rcases exists_cut opcode inside with ⟨number, cutEq, numberVal⟩
    refine ⟨number, cutEq, numberVal, ?_⟩
    rw [numberVal, value_run opcode inside, Nat.sub_right_comm]
  case parts =>
    intro whole cutEq front back lengths
    exact exists_cut_parts opcode cutEq lengths

/-- The last three digits of an opcode, as a whole and divided behind the first of them.
Four digits from the second on would end after the fourth. -/
theorem last_three_digits_are_divided :
    let opcode : Opcode := 0x4CEE
    opcode.cut 2 3 = .ok 0xCEE ∧
    (∃ left right, opcode.cut 2 1 = .ok left ∧ opcode.cut 3 2 = .ok right ∧
      0xCEE = left.toNat * 16 ^ 2 + right.toNat) ∧
    opcode.cut 2 4 = .error .overflow := by
  intro opcode
  have runs := runs_are_cut_exactly opcode 2 3
  have beyond := runs_are_cut_exactly opcode 2 4
  rcases runs.2.1 (by decide) with ⟨number, cutEq, -, numberVal⟩
  have read : number = 0xCEE := UInt16.toNat_inj.mp (numberVal.trans (by decide))
  subst read
  exact ⟨cutEq, runs.2.2 0xCEE cutEq 1 2 rfl, (beyond.1 .overflow).mpr ⟨rfl, .inr (by decide)⟩⟩

end Opcode
end Chip8
