namespace Chip8

/-!
# Addresses

Memory has 4096 cells, so an address has twelve bits.  The program counter and
the index register are wider: a sixteen-bit word points at the cell that its
low twelve bits name.
-/

/-- One of the 4096 cells of memory. -/
abbrev Address := Fin 4096

namespace Address

/-- The cell that a word points at.  Its high four bits do not count. -/
def ofWord (word : UInt16) : Address :=
  ⟨word.toNat % 4096, Nat.mod_lt _ (by decide)⟩

def toWord (address : Address) : UInt16 :=
  UInt16.ofNat address

theorem toNat_toWord (address : Address) : address.toWord.toNat = address := by
  have bound := address.isLt
  simp only [toWord, UInt16.toNat_ofNat']
  omega

theorem ofWord_toWord (address : Address) : ofWord address.toWord = address := by
  apply Fin.ext
  simp only [ofWord, toNat_toWord]
  exact Nat.mod_eq_of_lt address.isLt

end Address
end Chip8
