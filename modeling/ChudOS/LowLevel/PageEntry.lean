import ChudOS.LowLevel.Memory
import Mathlib.Data.Nat.Bitwise

/-!
# Page-table entries

Which frame an entry points at, and which indices a virtual address has, in natural numbers.
-/

namespace ChudOS

theorem physOf_toNat {n : Nat} (h : n < 2 ^ 52) : (physOf n).toNat = n * 0x1000 := by
  rw [physOf, BitVec.toNat_ofNat, Nat.mod_eq_of_lt (by omega)]

theorem frameOf_physOf {n : Nat} (h : n < 2 ^ 52) : frameOf (physOf n) = n := by
  rw [frameOf, physOf_toNat h]
  omega

theorem frameOf_lt (a : U64) : frameOf a < 2 ^ 52 := by
  have := a.isLt
  unfold frameOf
  omega

/-- A page-aligned address is determined by its frame. -/
theorem physOf_frameOf {a : U64} (h : a.toNat % 0x1000 = 0) : physOf (frameOf a) = a := by
  apply BitVec.eq_of_toNat_eq
  rw [physOf_toNat (frameOf_lt a), frameOf]
  omega

/-! ## Entries -/

/-- The address bits of an entry are its bits 12 to 51. -/
theorem pteFrame_eq (e : U64) : pteFrame e = e.toNat / 2 ^ 12 % 2 ^ 40 := by
  have mask : (0x000FFFFFFFFFF000 : U64).toNat / 2 ^ 12 = 2 ^ 40 - 1 := rfl
  have shifted : pteFrame e = (e.toNat &&& (0x000FFFFFFFFFF000 : U64).toNat) / 2 ^ 12 := by
    rw [← BitVec.toNat_and]
    rfl
  rw [shifted, Nat.and_div_two_pow, mask, Nat.and_two_pow_sub_one_eq_mod]

theorem pteFrame_lt (e : U64) : pteFrame e < 2 ^ 40 := by
  rw [pteFrame_eq]
  omega

theorem pteAddr_aligned (e : U64) : (pteAddr e).toNat % 0x1000 = 0 := by
  have mask : (0x000FFFFFFFFFF000 : U64).toNat % 2 ^ 12 = 0 := rfl
  have low : (pteAddr e).toNat % 2 ^ 12 = e.toNat % 2 ^ 12 &&& 0 := by
    rw [pteAddr, BitVec.toNat_and, Nat.and_mod_two_pow, mask]
  rw [Nat.and_zero] at low
  exact low

theorem pteAddr_eq (e : U64) : pteAddr e = physOf (pteFrame e) :=
  (physOf_frameOf (pteAddr_aligned e)).symm

theorem pteFrame_or (a b : U64) : pteFrame (a ||| b) = pteFrame a ||| pteFrame b := by
  simp only [pteFrame_eq, BitVec.toNat_or, Nat.or_div_two_pow, Nat.or_mod_two_pow]

theorem pteFrame_physOf {n : Nat} (h : n < 2 ^ 40) : pteFrame (physOf n) = n := by
  rw [pteFrame_eq, physOf_toNat (by omega)]
  omega

/-- Flags do not reach into the address bits. -/
theorem pteFrame_flags {x : U64} (h : x.toNat < 0x1000) : pteFrame x = 0 := by
  rw [pteFrame_eq]
  omega

theorem link_eq_some {e : U64} {n : Nat} : link e = some n ↔ e &&& 1 ≠ 0 ∧ pteFrame e = n := by
  unfold link
  split
  next absent => exact ⟨fun h => (nomatch h), fun h => absurd absent h.1⟩
  next present => exact ⟨fun h => ⟨present, Option.some.inj h⟩, fun h => congrArg some h.2⟩

theorem link_eq_none {e : U64} : link e = none ↔ e &&& 1 = 0 := by
  unfold link
  split
  next absent => exact ⟨fun _ => absent, fun _ => rfl⟩
  next present => exact ⟨fun h => (nomatch h), fun h => absurd h present⟩

@[simp] theorem link_zero : link 0 = none := rfl

/-- The entry `EnsureEntry` stores points at its table. -/
theorem link_tableEntry {n : Nat} (h : n < 2 ^ 40) (flags : U8) :
    link (physOf n ||| flags.setWidth 64 ||| 1) = some n := by
  have small : (flags.setWidth 64).toNat < 0x1000 := by
    rw [BitVec.toNat_setWidth]
    have := flags.isLt
    omega
  rw [link_eq_some, pteFrame_or, pteFrame_or, pteFrame_physOf h, pteFrame_flags small,
    pteFrame_flags (by decide), Nat.or_zero, Nat.or_zero]
  refine ⟨fun h => ?_, rfl⟩
  have bit := congrArg (BitVec.getLsbD · 0) h
  simp at bit

/-- The bit that disables execution does not reach into the address bits. -/
theorem pteFrame_executeDisable (xd : Bool) :
    pteFrame ((if xd then 1 else 0 : U64) <<< 63) = 0 := by
  cases xd <;> decide +kernel

theorem absent_iff {e : U64} : e &&& 1 = 0 ↔ e.getLsbD 0 = false := by
  constructor
  · intro h
    have bit := congrArg (BitVec.getLsbD · 0) h
    simpa using bit
  · intro h
    have bits (i : Nat) (hi : i < 64) : (e &&& 1).getLsbD i = (0 : U64).getLsbD i := by
      cases i with
      | zero => simpa [BitVec.getLsbD_eq_getElem] using h
      | succ i => simp
    exact BitVec.eq_of_getLsbD_eq bits

/-- The entry `alloc_page` stores points at its frame, if the flags say that it is present and stay
out of the address. -/
theorem link_pageEntry {page : PageDetails} {n : Nat} (hn : n < 2 ^ 40)
    (frame : page.physicalAddress = physOf n) (low : page.flags.flags.toNat < 0x1000)
    (present : page.flags.flags.getLsbD 0 = true) : link (pageEntry page) = some n := by
  have flags : pteFrame (page.flags.flags.setWidth 64) = 0 := pteFrame_flags (by
    rw [BitVec.toNat_setWidth]
    omega)
  have bit : (pageEntry page).getLsbD 0 = true := by
    simp [pageEntry, present]
  rw [link_eq_some]
  refine ⟨fun h => ?_, ?_⟩
  · rw [absent_iff.mp h] at bit
    cases bit
  · rw [pageEntry, pteFrame_or, pteFrame_or, frame, pteFrame_physOf hn, flags,
      pteFrame_executeDisable, Nat.or_zero, Nat.or_zero]

/-- An address below `2 ^ 47` passes the check of `EnsureEntry`. -/
theorem isCanonical_physOf {n : Nat} (h : n < 2 ^ 35) : isCanonical (physOf n) = true := by
  have shifted : physOf n >>> 47 = 0 := by
    apply BitVec.eq_of_toNat_eq
    rw [BitVec.toNat_ushiftRight, physOf_toNat (by omega), Nat.shiftRight_eq_div_pow]
    have : n * 0x1000 / 2 ^ 47 = 0 := by omega
    exact this
  simp [isCanonical, shifted]

/-! ## Virtual addresses -/

theorem index_toNat (v : U64) (n : Nat) :
    (((v >>> n) &&& 0x1FF).setWidth 16).toNat = v.toNat / 2 ^ n % 512 := by
  have mask : (0x1FF : U64).toNat = 2 ^ 9 - 1 := rfl
  rw [BitVec.toNat_setWidth, BitVec.toNat_and, BitVec.toNat_ushiftRight,
    Nat.shiftRight_eq_div_pow, mask, Nat.and_two_pow_sub_one_eq_mod]
  omega

/-- The indices of an address in the tables above the last level. -/
def pathOf (v : U64) : List (Fin 512) :=
  [⟨v.toNat / 2 ^ 39 % 512, by omega⟩, ⟨v.toNat / 2 ^ 30 % 512, by omega⟩,
    ⟨v.toNat / 2 ^ 21 % 512, by omega⟩]

/-- The index of an address in its page table. -/
def leafIndex (v : U64) : Fin 512 := ⟨v.toNat / 2 ^ 12 % 512, by omega⟩

/-- The page number of an address is that of the start of its page. -/
theorem page_toNat (v : U64) : (v &&& ~~~0xFFF).toNat / 2 ^ 12 = v.toNat / 2 ^ 12 := by
  have mask : (~~~0xFFF : U64).toNat / 2 ^ 12 = 2 ^ 52 - 1 := rfl
  rw [BitVec.toNat_and, Nat.and_div_two_pow, mask, Nat.and_two_pow_sub_one_eq_mod]
  have := v.isLt
  omega

theorem page_div (v : U64) {n : Nat} (h : 12 ≤ n) :
    (v &&& ~~~0xFFF).toNat / 2 ^ n = v.toNat / 2 ^ n := by
  obtain ⟨i, rfl⟩ := Nat.exists_eq_add_of_le h
  rw [Nat.pow_add, ← Nat.div_div_eq_div_mul, ← Nat.div_div_eq_div_mul, page_toNat]

@[simp] theorem pathOf_page (v : U64) : pathOf (v &&& ~~~0xFFF) = pathOf v := by
  simp only [pathOf, page_div v (show 12 ≤ 39 by decide), page_div v (show 12 ≤ 30 by decide),
    page_div v (show 12 ≤ 21 by decide)]

@[simp] theorem leafIndex_page (v : U64) : leafIndex (v &&& ~~~0xFFF) = leafIndex v := by
  simp only [leafIndex, page_toNat]

/-- The offset inside a page does not change the frame. -/
theorem frameOf_offset (e v : U64) : frameOf (pteAddr e ||| (v &&& 0xFFF)) = pteFrame e := by
  have offset : (v &&& 0xFFF).toNat / 2 ^ 12 = 0 := by
    have mask : (0xFFF : U64).toNat / 2 ^ 12 = 0 := rfl
    rw [BitVec.toNat_and, Nat.and_div_two_pow, mask, Nat.and_zero]
  have shifted : frameOf (pteAddr e ||| (v &&& 0xFFF)) =
      (pteAddr e).toNat / 2 ^ 12 ||| (v &&& 0xFFF).toNat / 2 ^ 12 := by
    rw [← Nat.or_div_two_pow, ← BitVec.toNat_or]
    rfl
  rw [shifted, offset, Nat.or_zero]
  rfl

end ChudOS
