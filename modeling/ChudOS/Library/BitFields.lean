import Mathlib.Data.Nat.Bitwise
import Mathlib.Tactic.Common

/-!
# Fields of a word

The bits of a word under a mask of ones, and of a word whose sign is taken from one of its bits.
-/

namespace BitFields

variable {w : Nat}

/-- A mask of `n` ones. -/
theorem getLsbD_ones (n j : Nat) :
    (BitVec.ofNat w (2 ^ n - 1)).getLsbD j = (decide (j < n) && decide (j < w)) := by
  rw [BitVec.getLsbD_ofNat, Nat.testBit_two_pow_sub_one, Bool.and_comm]

theorem getLsbD_and_ones (x : BitVec w) (n j : Nat) :
    (x &&& BitVec.ofNat w (2 ^ n - 1)).getLsbD j = (decide (j < n) && x.getLsbD j) := by
  rw [BitVec.getLsbD_and, getLsbD_ones]
  by_cases lt : j < w
  · simp [lt, Bool.and_comm]
  · simp [lt, BitVec.getLsbD_of_ge x j (Nat.le_of_not_lt lt)]

/-- A cut makes a wider mask superfluous. -/
theorem setWidth_and_ones (x : BitVec w) {m n : Nat} (le : n ≤ m) :
    (x &&& BitVec.ofNat w (2 ^ m - 1)).setWidth n = x.setWidth n := by
  apply BitVec.eq_of_getLsbD_eq
  intro i hi
  have inside : i < m := Nat.lt_of_lt_of_le hi le
  rw [BitVec.getLsbD_setWidth, BitVec.getLsbD_setWidth, getLsbD_and_ones, decide_eq_true inside,
    Bool.true_and]

/-- Shifted up and arithmetically down, a word gets the bits above a sign bit from it. -/
theorem getLsbD_sshiftRight_shiftLeft (x : BitVec w) {k i : Nat} (lt : k < w) (hi : i < w) :
    ((x <<< k).sshiftRight k).getLsbD i = x.getLsbD (min i (w - 1 - k)) := by
  rw [BitVec.getLsbD_sshiftRight]
  simp only [BitVec.getLsbD_shiftLeft, BitVec.msb_eq_getLsbD_last]
  grind

theorem getLsbD_signExtend_setWidth (x : BitVec w) {n i : Nat} (pos : 0 < n) (hi : i < w) :
    ((x.setWidth n).signExtend w).getLsbD i = x.getLsbD (min i (n - 1)) := by
  rw [BitVec.getLsbD_signExtend]
  simp only [BitVec.getLsbD_setWidth, BitVec.msb_eq_getLsbD_last]
  grind

end BitFields
