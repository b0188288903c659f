import Chip8.Machine.Operation

namespace Chip8
namespace Keypad

/-!
# Setting the keys of a keypad

The keypad of a machine is set key by key.  Once every key has been set to what
it is on some keypad, the result is that keypad, in whatever order the keys were
taken and whatever they were before.
-/

theorem toNat_ofNat_key (key : Key) : (UInt8.ofNat key).toNat = key := by
  have bound := key.isLt
  rw [UInt8.toNat_ofNat']
  omega

theorem get_set (keypad : Keypad) (key other : Key) (pressed : Bool) :
    (keypad.set (UInt8.ofNat key) pressed).down.get other =
      if key = other then pressed else keypad.down.get other := by
  change (keypad.down.setIfInBounds (UInt8.ofNat key).toNat pressed)[other.val] = _
  rw [toNat_ofNat_key, Vector.getElem_setIfInBounds]
  by_cases same : key = other
  · subst same
    simp
  · have different : key.val ≠ other.val := fun equal => same (Fin.ext equal)
    rw [if_neg different, if_neg same]
    rfl

theorem ext_get {first second : Keypad} (same : ∀ key, first.down.get key = second.down.get key) :
    first = second := by
  rcases first with ⟨first⟩
  rcases second with ⟨second⟩
  exact congrArg mk (Vector.ext fun key bound => same ⟨key, bound⟩)

/-- Sets keys one after the other. -/
def setAll (keypad : Keypad) (assignments : List (Key × Bool)) : Keypad :=
  assignments.foldl (fun keypad assignment => keypad.set (UInt8.ofNat assignment.1) assignment.2)
    keypad

/-- By induction on the assignments: a key that agrees with the wanted keypad stays so. -/
theorem get_setAll_of_get {wanted : Keypad} {assignments : List (Key × Bool)}
    (agrees : ∀ assignment ∈ assignments, assignment.2 = wanted.down.get assignment.1)
    {keypad : Keypad} {key : Key} (same : keypad.down.get key = wanted.down.get key) :
    (keypad.setAll assignments).down.get key = wanted.down.get key := by
  induction assignments generalizing keypad with
  | nil => exact same
  | cons assignment rest ih =>
      refine ih (fun later member => agrees later (.tail _ member)) ?_
      rw [get_set]
      split
      · next now => rw [agrees assignment (.head _), now]
      · exact same

/-- A key that is assigned agrees with the wanted keypad, whatever comes after. -/
theorem get_setAll_of_mem {wanted : Keypad} {assignments : List (Key × Bool)}
    (agrees : ∀ assignment ∈ assignments, assignment.2 = wanted.down.get assignment.1)
    (keypad : Keypad) {key : Key} (assigned : key ∈ assignments.map Prod.fst) :
    (keypad.setAll assignments).down.get key = wanted.down.get key := by
  induction assignments generalizing keypad with
  | nil => cases assigned
  | cons assignment rest ih =>
      have later := fun other (member : other ∈ rest) => agrees other (.tail _ member)
      rcases List.mem_cons.mp assigned with rfl | assigned
      · refine get_setAll_of_get later ?_
        rw [get_set, if_pos rfl]
        exact agrees assignment (.head _)
      · exact ih later _ assigned

/-- Keys that are all set to what they are on some keypad make up that keypad. -/
theorem setAll_eq {wanted : Keypad} {assignments : List (Key × Bool)}
    (agrees : ∀ assignment ∈ assignments, assignment.2 = wanted.down.get assignment.1)
    (covers : ∀ key, key ∈ assignments.map Prod.fst) (keypad : Keypad) :
    keypad.setAll assignments = wanted :=
  ext_get fun key => get_setAll_of_mem agrees keypad (covers key)

/-- The first key that is down is the lowest. -/
theorem lowest_of_firstDown {keypad : Keypad} {key : Key} (first : keypad.firstDown = some key) :
    keypad.down.get key = true ∧ ∀ lower, lower < key → keypad.down.get lower = false := by
  rcases List.find?_eq_some_iff_getElem.mp first with ⟨down, index, bound, found, before⟩
  rw [List.getElem_finRange] at found
  refine ⟨down, fun lower below => ?_⟩
  have place : lower.val < index := by
    rw [← found] at below
    exact below
  have up := before lower.val place
  rw [List.getElem_finRange] at up
  exact (Bool.not_eq_true' _).mp up

/-- The operations that set every key to what it is on the keypad. -/
def settings (keypad : Keypad) : List Operation :=
  (List.finRange 16).map fun key : Key => .setKey (UInt8.ofNat key) (keypad.down.get key)

end Keypad

/-! ## The keys of a machine -/

/-- The machine with the keys of a keypad. -/
def Machine.withKeypad (keypad : Keypad) (machine : Machine) : Machine :=
  { machine with keypad }

@[simp] theorem Machine.withKeypad_screen (keypad : Keypad) (machine : Machine) :
    (machine.withKeypad keypad).screen = machine.screen := rfl

@[simp] theorem Machine.withKeypad_withKeypad (keypad earlier : Keypad) (machine : Machine) :
    (machine.withKeypad earlier).withKeypad keypad = machine.withKeypad keypad := rfl

theorem Machine.foldl_setKey (assignments : List (Key × Bool)) (machine : Machine) :
    assignments.foldl
        (fun machine assignment => machine.setKey (UInt8.ofNat assignment.1) assignment.2) machine =
      machine.withKeypad (machine.keypad.setAll assignments) := by
  induction assignments generalizing machine with
  | nil => rfl
  | cons assignment rest ih => exact ih _

theorem Operation.stateAfter_setKeys (noise : Noise) (assignments : List (Key × Bool))
    (machine : Machine) :
    stateAfter noise (assignments.map fun assignment =>
        .setKey (UInt8.ofNat assignment.1) assignment.2) machine =
      machine.withKeypad (machine.keypad.setAll assignments) := by
  induction assignments generalizing machine with
  | nil => rfl
  | cons assignment rest ih => exact ih _

theorem Operation.stateAfter_settings (noise : Noise) (keypad : Keypad) (machine : Machine) :
    stateAfter noise keypad.settings machine = machine.withKeypad keypad := by
  have all : machine.keypad.setAll
      ((List.finRange 16).map fun key : Key => (key, keypad.down.get key)) = keypad := by
    refine Keypad.setAll_eq ?_ ?_ _
    · intro assignment member
      rcases List.mem_map.mp member with ⟨key, _, rfl⟩
      rfl
    · intro key
      simp
  have performed := stateAfter_setKeys noise
    ((List.finRange 16).map fun key : Key => (key, keypad.down.get key)) machine
  rw [all, List.map_map] at performed
  exact performed

end Chip8
