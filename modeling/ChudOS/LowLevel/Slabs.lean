import ChudOS.LowLevel.Memory

/-!
# Slabs

`kmalloc` and the search for free frames in a row. The loops count fuel; `slabs` from index 128 on is
the memory behind the table.
-/

namespace ChudOS

structure SlabCacheDescriptor where
  slab : U64
  slabSize : U64
  used : Bool
  deriving DecidableEq, Repr

/-- Some of the `c` frames from an address on is in use. -/
def encounteredUsed (m : Memory) (c : U64) (phys : U64) : Bool :=
  (List.range c.toNat).any fun i => memGetBit m (phys + BitVec.ofNat 64 (0x1000 * i))

/-- The search goes on from one stride to the next; 0 also stands for "none is left". -/
def continuousFrom (m : Memory) (c : U64) : Nat → U64 → Option U64
  | 0, _ => none
  | fuel + 1, phys =>
    if phys < m.totalMem then
      if encounteredUsed m c phys then continuousFrom m c fuel (phys + 0x1000 * c) else some phys
    else some 0

def findNextFreePhysicalContinuous (fuel : Nat) (m : Memory) (pageCount : U64) : Option U64 :=
  continuousFrom m pageCount fuel 0

/-- The first unused of the 128 descriptors. When all are used the search reads `slabs[128]`, which is
not in the table, so that nothing is known of how it ends: `past` is the index that the function goes
on with, and `none` where the test for 128 makes it return. -/
def findSlab (slabs : Nat → SlabCacheDescriptor) (past : Option Nat) : Option Nat :=
  ((List.range 128).find? fun i => !(slabs i).used).or past

/-- `bytes &= !0xFFF; bytes += 0x1000`, where `!0xFFF` is 0. -/
def roundBytes (bytes : U64) : U64 :=
  if 0 < bytes % 0x1000 then (bytes &&& 0) + 0x1000 else bytes

/-- The loop counts `bytes` up and leaves `p` at 1. -/
def mapFollowing (page : PageDetails) : Nat → Memory → U64 → Option Memory
  | 0, _, _ => none
  | fuel + 1, m, bytes =>
    if 1 < bytes / 0x1000 then do
      let page := { page with
        virtualAddress := page.virtualAddress + 0x1000
        physicalAddress := page.physicalAddress + 0x1000 }
      let (m, _) ← allocPage m page
      mapFollowing page fuel m (bytes + 1)
    else some m

structure KmallocResult where
  ret : U64
  mem : Memory
  slabs : Nat → SlabCacheDescriptor

/-- After the last loop nothing is returned: `unset` is what the caller finds. -/
def kmalloc (fuel : Nat) (m : Memory) (slabs : Nat → SlabCacheDescriptor) (past : Option Nat)
    (bytes unset : U64) : Option KmallocResult :=
  match findSlab slabs past with
  | none => some ⟨0, m, slabs⟩
  | some i => do
    let bytes := roundBytes bytes
    let phys ← findNextFreePhysicalContinuous fuel m (bytes / 0x1000)
    if phys = 0 then some ⟨0, m, slabs⟩
    else
      let page : PageDetails := ⟨⟨kernelFlags, false⟩, phys + virtualMemoryBarrier, phys⟩
      let (m, slab) ← allocPage m page
      let m ← mapFollowing page fuel m bytes
      some ⟨unset, m, Function.update slabs i ⟨slab, bytes / 0x1000, true⟩⟩

/-! ## What is reserved -/

/-- The frames of a reservation and its descriptor. -/
structure ReservedAt (m : Memory) (slabs : Nat → SlabCacheDescriptor) (pages p : Nat)
    (r : KmallocResult) : Prop where
  free : ∀ i < pages, memGetBit m (physOf (p + i)) = false ∧ physOf (p + i) < m.totalMem
  mapped : ∀ i < pages, translate r.mem (virtualMemoryBarrier + physOf (p + i)) = some (p + i)
  used : ∀ i < pages, memGetBit r.mem (physOf (p + i)) = true
  recorded : ∃ j < 128, (slabs j).used = false ∧
    r.slabs j = ⟨virtualMemoryBarrier + physOf p, BitVec.ofNat 64 pages, true⟩

/-- Nothing was done, or the address of what is reserved is returned. -/
def Reserved (m : Memory) (slabs : Nat → SlabCacheDescriptor) (bytes : U64) (r : KmallocResult) :
    Prop :=
  (r.ret = 0 ∧ r.mem = m ∧ r.slabs = slabs) ∨
    ∃ p, r.ret = virtualMemoryBarrier + physOf p ∧
      ReservedAt m slabs ((bytes.toNat + 0xFFF) / 0x1000) p r

/-- Whatever the caller finds, and whatever is behind the table, the call returns and has reserved
what it says. -/
def KmallocReserves (m : Memory) (slabs : Nat → SlabCacheDescriptor) (bytes : U64) : Prop :=
  ∀ past unset, ∃ fuel r, kmalloc fuel m slabs past bytes unset = some r ∧ Reserved m slabs bytes r

variable {m : Memory} {slabs : Nat → SlabCacheDescriptor} {past : Option Nat}
  {bytes unset c phys : U64} {fuel i k : Nat} {r : KmallocResult}

/-- The start of stride `k`. -/
def stride (c : U64) (k : Nat) : U64 := 0x1000 * c * BitVec.ofNat 64 k

/-- No stride below the end of memory is free, or the first one is, at address 0. -/
def NoRun (m : Memory) (c : U64) : Prop :=
  (0 < m.totalMem ∧ encounteredUsed m c 0 = false) ∨
    ∃ k, m.totalMem ≤ stride c k ∧
      ∀ j < k, stride c j < m.totalMem ∧ encounteredUsed m c (stride c j) = true

theorem stride_succ : stride c k + 0x1000 * c = stride c (k + 1) := by
  rw [stride, stride, BitVec.ofNat_add, BitVec.mul_add, BitVec.mul_one]

theorem continuousFrom_end (j : Nat) (passed : m.totalMem ≤ stride c (k + j))
    (blocked : ∀ i < j, stride c (k + i) < m.totalMem ∧
      encounteredUsed m c (stride c (k + i)) = true) :
    continuousFrom m c (j + 1) (stride c k) = some 0 := by
  induction j generalizing k with
  | zero =>
    rw [Nat.add_zero] at passed
    rw [continuousFrom, if_neg (BitVec.not_lt.2 passed)]
  | succ j ih =>
    obtain ⟨below, used⟩ := blocked 0 (Nat.succ_pos j)
    rw [Nat.add_zero] at below used
    rw [continuousFrom, if_pos below, if_pos used, stride_succ]
    refine ih (by rwa [Nat.add_assoc, Nat.add_comm 1]) fun i hi => ?_
    rw [Nat.add_assoc, Nat.add_comm 1]
    exact blocked (i + 1) (Nat.succ_lt_succ hi)

theorem noRun_of_continuousFrom (found : continuousFrom m c fuel (stride c k) = some 0)
    (blocked : ∀ j < k, stride c j < m.totalMem ∧ encounteredUsed m c (stride c j) = true) :
    NoRun m c := by
  induction fuel generalizing k with
  | zero => exact nomatch found
  | succ fuel ih =>
    rw [continuousFrom] at found
    split at found
    next below =>
      split at found
      next used =>
        rw [stride_succ] at found
        refine ih found fun j hj => ?_
        obtain hj | rfl := Nat.lt_succ_iff_lt_or_eq.1 hj
        · exact blocked j hj
        · exact ⟨below, used⟩
      next free =>
        have zero : stride c k = 0 := Option.some.inj found
        rw [zero] at below free
        exact .inl ⟨below, by simpa using free⟩
    next passed => exact .inr ⟨k, BitVec.not_lt.1 passed, blocked⟩

theorem findNextFreePhysicalContinuous_zero :
    (∃ fuel, findNextFreePhysicalContinuous fuel m c = some 0) ↔ NoRun m c := by
  have first : stride c 0 = 0 := BitVec.mul_zero
  constructor
  · rintro ⟨fuel, found⟩
    rw [findNextFreePhysicalContinuous, ← first] at found
    exact noRun_of_continuousFrom found nofun
  · rintro (⟨below, free⟩ | ⟨k, passed, blocked⟩)
    · refine ⟨1, ?_⟩
      rw [findNextFreePhysicalContinuous, continuousFrom, if_pos below, free]
      rfl
    · refine ⟨k + 1, ?_⟩
      have ends := @continuousFrom_end m c 0 k (by rwa [Nat.zero_add]) (by simpa using blocked)
      rwa [first] at ends

/-- The way to `NULL`: no room is found. -/
def Refuses (m : Memory) (bytes : U64) : Prop := NoRun m (roundBytes bytes / 0x1000)

theorem kmalloc_of_refuses (refuses : Refuses m bytes) :
    ∃ fuel, kmalloc fuel m slabs past bytes unset = some ⟨0, m, slabs⟩ := by
  obtain ⟨fuel, none⟩ := findNextFreePhysicalContinuous_zero.2 refuses
  refine ⟨fuel, ?_⟩
  rw [kmalloc]
  split
  · rfl
  · simp only [none, Option.bind_eq_bind, Option.bind_some, if_true]

/-- Otherwise the caller finds what was there before, unless the function returns before the search
for frames. -/
theorem kmalloc_ret (accepts : ¬ Refuses m bytes) (slab : findSlab slabs past = some i)
    (h : kmalloc fuel m slabs past bytes unset = some r) : r.ret = unset := by
  rw [Refuses, ← findNextFreePhysicalContinuous_zero] at accepts
  simp only [kmalloc, slab, Option.bind_eq_bind, Option.bind_eq_some_iff] at h
  obtain ⟨phys, found, h⟩ := h
  split at h
  next zero =>
    subst zero
    exact absurd ⟨fuel, found⟩ accepts
  next =>
    simp only [Option.bind_eq_some_iff, Prod.exists] at h
    obtain ⟨m₁, slab, -, m₂, -, h⟩ := h
    cases h
    rfl

/-- The search for a descriptor may end with one, behind the table if need be. -/
theorem exists_findSlab (slabs : Nat → SlabCacheDescriptor) :
    ∃ i, findSlab slabs (some 129) = some i := by
  rw [findSlab]
  cases (List.range 128).find? fun i => !(slabs i).used with
  | some i => exact ⟨i, rfl⟩
  | none => exact ⟨129, rfl⟩

/-- An odd number is no address of a frame. -/
theorem one_ne_frame {p : Nat} : (1 : U64) ≠ virtualMemoryBarrier + physOf p := by
  intro same
  have sum : (1 : U64).toNat = _ := (congrArg BitVec.toNat same).trans (BitVec.toNat_add ..)
  have frame : (physOf p).toNat = p * 0x1000 % 2 ^ 64 := BitVec.toNat_ofNat ..
  have barrier : virtualMemoryBarrier.toNat = 0xffff800000000 * 0x1000 := rfl
  have one : (1 : U64).toNat = 1 := rfl
  omega

theorem not_reserves (accepts : ¬ Refuses m bytes) : ¬ KmallocReserves m slabs bytes := by
  intro reserves
  obtain ⟨i, slab⟩ := exists_findSlab slabs
  obtain ⟨fuel, r, returned, ⟨zero, -⟩ | ⟨p, address, -⟩⟩ := reserves (some 129) 1
  · exact absurd ((kmalloc_ret accepts slab returned).symm.trans zero) (by decide)
  · exact one_ne_frame ((kmalloc_ret accepts slab returned).symm.trans address)

theorem kmalloc_reserves : KmallocReserves m slabs bytes ↔ Refuses m bytes := by
  constructor
  · intro reserves
    by_contra accepts
    exact not_reserves accepts reserves
  · intro refuses past unset
    obtain ⟨fuel, returned⟩ := @kmalloc_of_refuses m slabs past bytes unset refuses
    exact ⟨fuel, _, returned, .inl ⟨rfl, rfl, rfl⟩⟩

/-- Three frames, of which the last is free. -/
def threeFrames : Memory where
  ram _ _ := 0
  physFrames f := if f < 2 then ⟨1, 1⟩ else ⟨0, 0⟩
  totalMem := 0x3000
  availableMem := 0x3000
  physicalPagesUsed := 2
  virtualMemorySize := 0
  paging := ⟨0, 0, 0⟩

/-- One byte, with a free frame and an empty table. -/
theorem kmalloc_unset : ¬ KmallocReserves threeFrames (fun _ => ⟨0, 0, false⟩) 1 := by
  refine not_reserves ?_
  rintro (⟨-, free⟩ | ⟨k, passed, blocked⟩)
  · exact absurd free (by decide)
  · by_cases far : 2 < k
    · exact absurd (blocked 2 far).2 (by decide)
    · have small : k = 0 ∨ k = 1 ∨ k = 2 := by omega
      rcases small with rfl | rfl | rfl <;> exact absurd passed (by decide)

end ChudOS
