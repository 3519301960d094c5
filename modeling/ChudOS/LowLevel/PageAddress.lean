import ChudOS.Library.BitFields
import ChudOS.LowLevel.Memory

/-!
# Virtual addresses in parts

`CalculatePageAddress` puts an address together from its table indexes, and `ExtractPageEntries`
takes it apart. The 48 bits in the parts determine the address if it is canonical. `IsCanonical`
denies that of the addresses of the upper half, which page-table entries do not contain.
-/

namespace ChudOS

open BitFields

def calculatePageAddress (entries : PageEntries) : U64 :=
  let pml4Entry : U16 := entries.pml4Entry &&& 0x1FF
  let pdptEntry : U16 := entries.pdptEntry &&& 0x1FF
  let pdEntry : U16 := entries.pdEntry &&& 0x1FF
  let ptEntry : U16 := entries.ptEntry &&& 0x1FF
  let offset : U16 := entries.pageOffset &&& 0xFFF
  let address : U64 := pml4Entry.setWidth 64 <<< 39 ||| pdptEntry.setWidth 64 <<< 30 |||
    pdEntry.setWidth 64 <<< 21 ||| ptEntry.setWidth 64 <<< 12 ||| offset.setWidth 64
  (address <<< 16).sshiftRight 16

/-- Bits 48 to 63 equal bit 47. -/
def Canonical (a : U64) : Prop := (a.setWidth 48).signExtend 64 = a

instance : DecidablePred Canonical := fun _ => inferInstanceAs (Decidable (_ = _))

/-- The parts of an address, with the bits that count. -/
def PageEntries.reduced (e : PageEntries) : PageEntries where
  pml4Entry := (e.pml4Entry.setWidth 9).setWidth 16
  pdptEntry := (e.pdptEntry.setWidth 9).setWidth 16
  pdEntry := (e.pdEntry.setWidth 9).setWidth 16
  ptEntry := (e.ptEntry.setWidth 9).setWidth 16
  pageOffset := (e.pageOffset.setWidth 12).setWidth 16

variable {a v : U64} {e : PageEntries} {i j n : Nat}

/-! ## Bits -/

/-- The bit of the parts that bit `i` of an address is. -/
def PageEntries.bit (e : PageEntries) (i : Nat) : Bool :=
  if i < 12 then e.pageOffset.getLsbD i
  else if i < 21 then e.ptEntry.getLsbD (i - 12)
  else if i < 30 then e.pdEntry.getLsbD (i - 21)
  else if i < 39 then e.pdptEntry.getLsbD (i - 30)
  else e.pml4Entry.getLsbD (i - 39)

/-- A field under its mask. -/
theorem getLsbD_field (x : U16) (n j : Nat) :
    ((x &&& BitVec.ofNat 16 (2 ^ n - 1)).setWidth 64).getLsbD j =
      (decide (j < n) && x.getLsbD j) := by
  rw [BitVec.getLsbD_setWidth, getLsbD_and_ones]
  by_cases lt : j < 64
  · simp [lt]
  · simp [lt, BitVec.getLsbD_of_ge x j (by omega)]

theorem getLsbD_calculatePageAddress (e : PageEntries) (hi : i < 64) :
    (calculatePageAddress e).getLsbD i = e.bit (min i 47) := by
  have ones₉ : (0x1FF : U16) = BitVec.ofNat 16 (2 ^ 9 - 1) := rfl
  have ones₁₂ : (0xFFF : U16) = BitVec.ofNat 16 (2 ^ 12 - 1) := rfl
  rw [calculatePageAddress, getLsbD_sshiftRight_shiftLeft _ (by decide) hi, ones₉, ones₁₂,
    PageEntries.bit]
  change BitVec.getLsbD _ (min i 47) = _
  have lt : min i 47 < 48 := by omega
  generalize min i 47 = k at lt
  simp only [BitVec.getLsbD_or, BitVec.getLsbD_shiftLeft, getLsbD_field]
  grind

/-- The bits of a part of an address. -/
theorem getLsbD_part (v : U64) (k : Nat) (le : n ≤ 16) :
    ((v >>> k &&& BitVec.ofNat 64 (2 ^ n - 1)).setWidth 16).getLsbD j =
      (decide (j < n) && v.getLsbD (k + j)) := by
  rw [BitVec.getLsbD_setWidth, getLsbD_and_ones, BitVec.getLsbD_ushiftRight]
  grind

theorem bit_extractPageEntries (v : U64) (hi : i < 48) : (extractPageEntries v).bit i =
    v.getLsbD i := by
  have ones₉ : (0x1FF : U64) = BitVec.ofNat 64 (2 ^ 9 - 1) := rfl
  have ones₁₂ : (0xFFF : U64) = BitVec.ofNat 64 (2 ^ 12 - 1) := rfl
  have whole : v &&& (0xFFF : U64) = v >>> 0 &&& BitVec.ofNat 64 (2 ^ 12 - 1) := by
    rw [ones₁₂, BitVec.ushiftRight_zero]
  rw [extractPageEntries, PageEntries.bit, whole, ones₉]
  simp only [getLsbD_part v _ (by decide : 9 ≤ 16), getLsbD_part v _ (by decide : 12 ≤ 16)]
  grind

theorem getLsbD_signExtend (v : U64) (hi : i < 64) :
    ((v.setWidth 48).signExtend 64).getLsbD i = v.getLsbD (min i 47) :=
  getLsbD_signExtend_setWidth v (by decide) hi

/-! ## Apart and together -/

theorem calculatePageAddress_extractPageEntries (v : U64) :
    calculatePageAddress (extractPageEntries v) = (v.setWidth 48).signExtend 64 := by
  apply BitVec.eq_of_getLsbD_eq
  intro i hi
  rw [getLsbD_calculatePageAddress _ hi, bit_extractPageEntries v (by omega),
    getLsbD_signExtend v hi]

/-- What a part of an address put together is. -/
theorem part_calculatePageAddress (e : PageEntries) (x : U16) (k : Nat) (le : n ≤ 16)
    (fits : k + n ≤ 48) (bits : ∀ j < n, e.bit (k + j) = x.getLsbD j) :
    (calculatePageAddress e >>> k &&& BitVec.ofNat 64 (2 ^ n - 1)).setWidth 16 =
      (x.setWidth n).setWidth 16 := by
  apply BitVec.eq_of_getLsbD_eq
  intro j hj
  rw [getLsbD_part _ k le, BitVec.getLsbD_setWidth, BitVec.getLsbD_setWidth]
  by_cases lt : j < n
  · rw [getLsbD_calculatePageAddress e (by omega), Nat.min_eq_left (by omega), bits j lt]
    simp [hj]
  · simp [lt]

theorem extractPageEntries_calculatePageAddress (e : PageEntries) :
    extractPageEntries (calculatePageAddress e) = e.reduced := by
  have offset := part_calculatePageAddress e e.pageOffset 0 (by decide : 12 ≤ 16) (by decide)
    fun j lt => by rw [PageEntries.bit, if_pos (by omega), Nat.zero_add]
  rw [BitVec.ushiftRight_zero] at offset
  have pt := part_calculatePageAddress e e.ptEntry 12 (by decide : 9 ≤ 16) (by decide)
    fun j lt => by rw [PageEntries.bit]; grind
  have pd := part_calculatePageAddress e e.pdEntry 21 (by decide : 9 ≤ 16) (by decide)
    fun j lt => by rw [PageEntries.bit]; grind
  have pdpt := part_calculatePageAddress e e.pdptEntry 30 (by decide : 9 ≤ 16) (by decide)
    fun j lt => by rw [PageEntries.bit]; grind
  have pml4 := part_calculatePageAddress e e.pml4Entry 39 (by decide : 9 ≤ 16) (by decide)
    fun j lt => by rw [PageEntries.bit]; grind
  exact (PageEntries.mk.injEq ..).mpr ⟨pml4, pdpt, pd, pt, offset⟩

theorem Canonical.eq (canonical : Canonical a) :
    calculatePageAddress (extractPageEntries a) = a :=
  (calculatePageAddress_extractPageEntries a).trans canonical

/-- Apart and together again, either way, an address keeps the 48 bits that count. -/
theorem pageAddress_inverse :
    (∀ v, calculatePageAddress (extractPageEntries v) = (v.setWidth 48).signExtend 64) ∧
      (∀ e, extractPageEntries (calculatePageAddress e) = e.reduced) ∧
      ∀ v w, Canonical v ∧ Canonical w ∧ extractPageEntries v = extractPageEntries w → v = w := by
  refine ⟨calculatePageAddress_extractPageEntries, extractPageEntries_calculatePageAddress, ?_⟩
  rintro v w ⟨hv, hw, same⟩
  rw [← hv.eq, same, hw.eq]

/-! ## Canonical addresses -/

theorem canonical_iff_getLsbD :
    Canonical a ↔ ∀ i < 64, 47 < i → a.getLsbD i = a.getLsbD 47 := by
  constructor
  · intro canonical i hi above
    have bit := getLsbD_signExtend a hi
    rw [canonical, Nat.min_eq_right (by omega)] at bit
    exact bit
  · intro same
    apply BitVec.eq_of_getLsbD_eq
    intro i hi
    rw [getLsbD_signExtend a hi]
    rcases Nat.lt_or_ge 47 i with above | below
    · rw [Nat.min_eq_right (by omega), same i hi above]
    · rw [Nat.min_eq_left below]

/-- The bits from 47 on are all clear, or all set. -/
theorem canonical_iff : Canonical a ↔ a >>> 47 = 0 ∨ a >>> 47 = 0x1FFFF := by
  have ones : (0x1FFFF : U64) = BitVec.ofNat 64 (2 ^ 17 - 1) := rfl
  have high (i : Nat) : (a >>> 47).getLsbD i = a.getLsbD (47 + i) :=
    BitVec.getLsbD_ushiftRight ..
  have zero (i : Nat) : (0 : U64).getLsbD i = false := BitVec.getLsbD_zero
  rw [canonical_iff_getLsbD]
  constructor
  · intro same
    have bit (i : Nat) (hi : 47 + i < 64) : a.getLsbD (47 + i) = a.getLsbD 47 := by
      cases i with
      | zero => rfl
      | succ i => exact same (47 + (i + 1)) hi (by omega)
    cases sign : a.getLsbD 47 with
    | false =>
      refine .inl (BitVec.eq_of_getLsbD_eq fun i hi => ?_)
      rw [high, zero]
      by_cases fits : 47 + i < 64
      · rw [bit i fits, sign]
      · exact BitVec.getLsbD_of_ge a _ (by omega)
    | true =>
      refine .inr (BitVec.eq_of_getLsbD_eq fun i hi => ?_)
      rw [high, ones, getLsbD_ones]
      by_cases fits : 47 + i < 64
      · rw [bit i fits, sign, decide_eq_true (by omega), decide_eq_true hi, Bool.and_true]
      · rw [BitVec.getLsbD_of_ge a _ (by omega), decide_eq_false (by omega), Bool.false_and]
  · rintro (low | all) i hi above
    · have bit (j : Nat) : a.getLsbD (47 + j) = false := by
        rw [← high, low, zero]
      obtain ⟨j, rfl⟩ := Nat.exists_eq_add_of_le (Nat.le_of_lt above)
      rw [bit j, ← bit 0]
    · have bit (j : Nat) (lt : j < 17) : a.getLsbD (47 + j) = true := by
        rw [← high, all, ones, getLsbD_ones, decide_eq_true lt, decide_eq_true (by omega),
          Bool.and_true]
      obtain ⟨j, rfl⟩ := Nat.exists_eq_add_of_le (Nat.le_of_lt above)
      rw [bit j (by omega), ← bit 0 (by decide)]

/-- The constant for the upper half is too wide for the bits that are left. -/
theorem isCanonical_iff : isCanonical a = true ↔ a >>> 47 = 0 := by
  have short : a >>> 47 ≠ 0x1FFFFFFFF := by
    intro same
    have bit : (a >>> 47).getLsbD 32 = true := by
      rw [same]
      decide
    rw [BitVec.getLsbD_ushiftRight, BitVec.getLsbD_of_ge a _ (by decide)] at bit
    cases bit
  rw [isCanonical, Bool.or_eq_true, beq_iff_eq, beq_iff_eq, or_iff_left short]

/-- What a page-table entry has for an address is below the upper half. -/
theorem pteAddr_low (x : U64) : pteAddr x >>> 47 ≠ 0x1FFFF := by
  intro same
  have bit : (pteAddr x >>> 47).getLsbD 16 = true := by
    rw [same]
    decide
  rw [BitVec.getLsbD_ushiftRight, pteAddr, BitVec.getLsbD_and] at bit
  have clear : (0x000FFFFFFFFFF000 : U64).getLsbD 63 = false := by decide
  rw [Bool.and_eq_true] at bit
  exact absurd (clear.symm.trans bit.2) (by decide)

theorem isCanonical_pteAddr (x : U64) :
    isCanonical (pteAddr x) = true ↔ Canonical (pteAddr x) := by
  rw [isCanonical_iff, canonical_iff, or_iff_left (pteAddr_low x)]

/-- The entry that `EnsureEntry` writes for a fresh table. -/
def freshEntry (m : Memory) (flags : U8) : U64 := findNextFreePhysical m ||| flags.setWidth 64 ||| 1

/--
`IsCanonical` decides whether an address is put together again from its parts, unless it is a
canonical address of the upper half. `EnsureEntry` keeps the present entries with a canonical
address, and replaces all others.
-/
theorem isCanonical_decides_iff (a : U64) (m : Memory) (slot : Slot) (flags : U8) :
    ((isCanonical a = true ↔ calculatePageAddress (extractPageEntries a) = a) ↔
      a >>> 47 ≠ 0x1FFFF) ∧
    if m.entry slot &&& 1 ≠ 0 ∧ Canonical (pteAddr (m.entry slot)) then
      ensureEntry m slot flags = m
    else (ensureEntry m slot flags).entry slot = freshEntry m flags := by
  constructor
  · rw [calculatePageAddress_extractPageEntries, isCanonical_iff]
    change (_ ↔ Canonical a) ↔ _
    rw [canonical_iff]
    have apart : a >>> 47 = 0x1FFFF → a >>> 47 ≠ 0 := by
      intro upper zero
      rw [zero] at upper
      exact absurd upper (by decide)
    grind
  · rw [ensureEntry]
    split_ifs with keep replace replace
    · rcases replace with absent | wrong
      · exact absurd absent keep.1
      · exact absurd ((isCanonical_pteAddr _).mpr keep.2) (by rw [wrong]; decide)
    · rfl
    · simp only [Memory.entry, Memory.setEntry, Function.update_self]
      rfl
    · rw [not_or, Bool.not_eq_false] at replace
      exact absurd ⟨replace.1, (isCanonical_pteAddr _).mp replace.2⟩ keep

/-- The first address of the upper half is canonical. -/
theorem upperHalf_canonical : isCanonical virtualMemoryBarrier = false ∧
    calculatePageAddress (extractPageEntries virtualMemoryBarrier) = virtualMemoryBarrier := by
  decide

end ChudOS
