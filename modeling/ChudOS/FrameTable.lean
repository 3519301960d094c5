import ChudOS.LowLevel.E820
import ChudOS.MemoryCalls

/-!
# The table of physical frames

`Enumerate_E820` runs twice and adds up `total_mem` each time, so from then on the kernel scans
twice as much memory as `InitMem` reserved frame table for.

## Main definitions

* `Withheld` — the frames that are marked once the table has been filled.
* `LaterState` — the states after `InitMem`.
-/

namespace ChudOS

open Memory

variable {m m' m'' : Memory} {ds : List E820RangeDescriptor} {fuel f : Nat}
  {length base pageCount : U64} {doDirty : Bool}

/-! ## The enumeration -/

/-- What `total_mem` grows by in one pass over the descriptors. -/
def rangeTotal : List E820RangeDescriptor → U64
  | [] => 0
  | d :: ds => d.length + rangeTotal ds

/-- A page that the loop over the ranges reserves. It is one page past the one it stands for. -/
def ReservedPage (ds : List E820RangeDescriptor) (f : Nat) : Prop :=
  ∃ d ∈ ds, d.type ≠ 1 ∧ ∃ j, (∀ i ≤ j, pageOffset i < d.length) ∧
    f = frameOf (d.baseAddress + BitVec.ofNat 64 ((j + 1) * 0x1000))

/-- Marks are added; RAM and the address spaces stay. -/
structure Reserves (m m' : Memory) : Prop where
  ram : m'.ram = m.ram
  paging : m'.paging = m.paging
  marked : ∀ f, m.marked f = true → m'.marked f = true

namespace Reserves

theorem refl : Reserves m m := ⟨rfl, rfl, fun _ h => h⟩

theorem trans (h : Reserves m m') (g : Reserves m' m'') : Reserves m m'' :=
  ⟨g.ram.trans h.ram, g.paging.trans h.paging, fun f hf => g.marked f (h.marked f hf)⟩

end Reserves

theorem reservePage_physFrames (m : Memory) (a : U64) (f : Nat) :
    ((reservePage m a).physFrames f).flags =
      if f = frameOf a then ((m.physFrames f).flags ||| 1) &&& 0b11
      else (m.physFrames f).flags := by
  by_cases h : f = frameOf a
  · subst h
    simp [reservePage, memSetBit, setFlags, setFrame]
  · simp [reservePage, memSetBit, setFlags, setFrame, h]

theorem reservePage_marked (m : Memory) (a : U64) : (reservePage m a).marked (frameOf a) = true := by
  have used : ∀ x : U8, (((x ||| 1) &&& 0b11) &&& 0b111 != 0) = true := by decide
  rw [Memory.marked, reservePage_physFrames, if_pos rfl]
  exact used _

theorem reservePage_reserves (m : Memory) (a : U64) : Reserves m (reservePage m a) := by
  refine ⟨rfl, rfl, fun f hf => ?_⟩
  by_cases h : f = frameOf a
  · exact h ▸ reservePage_marked m a
  · rwa [Memory.marked, reservePage_physFrames, if_neg h]

theorem reserveRange_spec {k : Nat} (h : reserveRange doDirty length m base k fuel = some m') :
    Reserves m m' ∧ m'.totalMem = m.totalMem ∧
      (doDirty = true → ∀ j, (∀ i ≤ j, pageOffset (k + i) < length) →
        m'.marked (frameOf (base + BitVec.ofNat 64 ((j + 1) * 0x1000))) = true) := by
  induction fuel generalizing m base k with
  | zero => cases h
  | succ fuel ih =>
    rw [reserveRange] at h
    split_ifs at h with inside dirty
    · obtain ⟨reserves, total, marks⟩ := ih h
      refine ⟨(reservePage_reserves _ _).trans reserves, total, fun _ j below => ?_⟩
      cases j with
      | zero => exact reserves.marked _ (reservePage_marked _ _)
      | succ j =>
        have next := marks dirty j fun i hi => by
          have := below (i + 1) (by omega)
          rwa [Nat.add_comm i 1, ← Nat.add_assoc] at this
        have same : base + 0x1000 + BitVec.ofNat 64 ((j + 1) * 0x1000) =
            base + BitVec.ofNat 64 ((j + 1 + 1) * 0x1000) := by
          apply BitVec.eq_of_toNat_eq
          have page : (0x1000 : U64).toNat = 0x1000 := rfl
          simp only [BitVec.toNat_add, BitVec.toNat_ofNat, page]
          omega
        rwa [same] at next
    · obtain ⟨reserves, total, -⟩ := ih h
      exact ⟨reserves, total, fun h => absurd h dirty⟩
    · cases h
      exact ⟨.refl, rfl, fun _ j below => absurd (below 0 (Nat.zero_le j)) inside⟩

theorem enumerateRange_spec {d : E820RangeDescriptor}
    (h : enumerateRange fuel doDirty m d = some m') :
    Reserves m m' ∧ m'.totalMem = m.totalMem + d.length ∧
      (doDirty = true → ∀ f, ReservedPage [d] f → m'.marked f = true) := by
  rw [enumerateRange] at h
  dsimp only at h
  split_ifs at h with available
  · cases h
    refine ⟨⟨rfl, rfl, fun _ h => h⟩, rfl, fun _ f ⟨e, he, reserved, _⟩ => ?_⟩
    exact absurd (List.mem_singleton.mp he ▸ available) reserved
  · obtain ⟨reserves, total, marks⟩ := reserveRange_spec h
    refine ⟨⟨reserves.ram, reserves.paging, reserves.marked⟩, total, fun dirty f page => ?_⟩
    obtain ⟨e, he, -, j, below, rfl⟩ := page
    obtain rfl := List.mem_singleton.mp he
    refine marks dirty j fun i hi => ?_
    rw [Nat.zero_add]
    exact below i hi

theorem enumerateRanges_spec (h : enumerateRanges fuel doDirty m ds = some m') :
    Reserves m m' ∧ m'.totalMem = m.totalMem + rangeTotal ds ∧
      (doDirty = true → ∀ f, ReservedPage ds f → m'.marked f = true) := by
  induction ds generalizing m with
  | nil =>
    cases h
    exact ⟨.refl, (BitVec.add_zero _).symm, fun _ f ⟨d, hd, _⟩ => absurd hd List.not_mem_nil⟩
  | cons d ds ih =>
    simp only [enumerateRanges, Option.bind_eq_bind, Option.bind_eq_some_iff] at h
    obtain ⟨m₁, h₁, h⟩ := h
    obtain ⟨reserves₁, total₁, marks₁⟩ := enumerateRange_spec h₁
    obtain ⟨reserves, total, marks⟩ := ih h
    refine ⟨reserves₁.trans reserves, ?_, fun dirty f ⟨e, he, page⟩ => ?_⟩
    · rw [total, total₁, BitVec.add_assoc]
      rfl
    · obtain rfl | he := List.mem_cons.mp he
      · exact reserves.marked f (marks₁ dirty f ⟨e, List.mem_singleton.mpr rfl, page⟩)
      · exact marks dirty f ⟨e, he, page⟩

/-! ## The table after boot -/

/-- `total_mem` when `InitMem` sizes the table. -/
def sizedTotal (ds : List E820RangeDescriptor) : U64 := rangeTotal (enumerated ds)

/-- How many frames `InitMem` marks as the kernel's. -/
def kernelFrames (ds : List E820RangeDescriptor) : Nat :=
  (kernelPageCount + physFramesPages (sizedTotal ds) + 1).toNat

/-- The frame is marked once the table has been filled: it is the kernel's, or RAM happened to hold
a mark for it, or the enumeration has reserved it. -/
def Withheld (frames : Nat → PhysicalFrame) (ds : List E820RangeDescriptor) (f : Nat) : Prop :=
  f < kernelFrames ds ∨ (frames f).flags &&& 0b111 ≠ 0 ∨ ReservedPage (enumerated ds) f

theorem reserveFrames_marked (m : Memory) (n f : Nat) :
    (reserveFrames m n).marked f = (decide (f < n) || m.marked f) := by
  unfold Memory.marked reserveFrames
  by_cases h : f < n
  · simp only [h, if_true, decide_true, Bool.true_or]
    rfl
  · simp [h]

theorem initFrames_spec (zero : m.totalMem = 0)
    (h : initFrames fuel m ds = some (m', pageCount)) :
    m'.ram = m.ram ∧ m'.paging = m.paging ∧ m'.totalMem = sizedTotal ds + sizedTotal ds ∧
      pageCount = kernelPageCount + physFramesPages (sizedTotal ds) ∧
      ∀ f, Withheld m.physFrames ds f → m'.marked f = true := by
  simp only [initFrames, Option.bind_eq_bind, Option.bind_eq_some_iff, Option.some.injEq,
    Prod.mk.injEq] at h
  obtain ⟨m₁, h₁, m₂, h₂, rfl, rfl⟩ := h
  obtain ⟨reserves₁, total₁, -⟩ := enumerateRanges_spec h₁
  obtain ⟨reserves₂, total₂, marks⟩ := enumerateRanges_spec h₂
  have sized : m₁.totalMem = sizedTotal ds := by
    rw [total₁, zero]
    exact BitVec.zero_add _
  refine ⟨reserves₂.ram.trans reserves₁.ram, reserves₂.paging.trans reserves₁.paging, ?_, ?_,
    fun f withheld => ?_⟩
  · exact total₂.trans (congrArg (· + _) sized)
  · rw [sized]
  · rcases withheld with kernel | initial | page
    · refine reserves₂.marked f ?_
      rw [reserveFrames_marked, sized]
      exact Bool.or_eq_true_iff.mpr (.inl (decide_eq_true kernel))
    · refine reserves₂.marked f ?_
      have before := reserves₁.marked f (bne_iff_ne.mpr initial)
      rw [reserveFrames_marked, before, Bool.or_true]
    · exact marks rfl f page

/-- The rest of `InitMem` only adds marks. -/
theorem createUserMemory_marks {t t' : TaskMemoryDefinition} {a : U64}
    (h : createUserMemory m t = some (m', t', a)) : KeepsMarks m m' := by
  obtain ⟨m₁, va, f, allocated, -, address⟩ := createUserMemory_cases h
  obtain rfl : (physAddr _ va).1 = m' := congrArg Prod.fst address
  have written : KeepsMarks m₁ { m₁.zeroFrame f with
      ram := Function.update (m₁.zeroFrame f).ram f (upperHalf (m₁.zeroFrame f)) } :=
    .of_frames rfl rfl
  exact ((malloc_marks allocated).trans written).trans (walk_marks _ _)

theorem mapPhysical_marks {phys : U64} {n : Nat} (h : mapPhysical m phys n = some m') :
    KeepsMarks m m' := by
  induction n generalizing m phys with
  | zero => cases h; exact .refl
  | succ n ih =>
    simp only [mapPhysical, Option.bind_eq_bind] at h
    split_ifs at h with clean
    · simp only [Option.bind_eq_some_iff, Option.map_eq_some_iff, Prod.exists] at h
      obtain ⟨m₁, ⟨m₂, a, mapped, rfl⟩, h⟩ := h
      exact (allocPage_marks mapped).trans (ih h)
    · exact ih h

variable {frames : Nat → PhysicalFrame} {ram : Nat → Nat → U64} {cr3 pml4 : U64}
  {kernelMemory t : TaskMemoryDefinition}

/-- What `InitMem` leaves: twice the total it has sized the table for, and marks on the frames that
are withheld. -/
theorem initMem_spec (h : initMem fuel (bootMemory ram frames cr3) kernelMemory ds =
    some (m, t, pml4)) :
    m.totalMem = sizedTotal ds + sizedTotal ds ∧
      ∀ f ≠ 0, Withheld frames ds f → m.marked f = true := by
  simp only [initMem, Option.bind_eq_bind, Option.bind_eq_some_iff, Prod.exists, Option.some.injEq,
    Prod.mk.injEq] at h
  obtain ⟨m₁, pageCount, filled, m₂, t₂, a, created, m₃, mapped, rfl, -, -⟩ := h
  obtain ⟨-, -, total, -, marks⟩ := initFrames_spec rfl filled
  have created := createUserMemory_marks created
  have mapped := mapPhysical_marks mapped
  refine ⟨?_, fun f hf withheld => ?_⟩
  · rw [mapped.totalMem]
    exact created.totalMem.trans total
  · exact mapped.marked f hf (created.marked f hf (marks f withheld))

/-! ## What the allocator hands out -/

/-- The whole frame lies in one range of available memory. -/
def RealFrame (ds : List E820RangeDescriptor) (f : Nat) : Prop :=
  ∃ d ∈ ds, d.type = 1 ∧ d.baseAddress.toNat ≤ f * 0x1000 ∧ (f + 1) * 0x1000 ≤ d.limit

/-- The states after the state `m`. Only page tables, or frames of available memory, are given to
`free_page`; and what the code takes for entries past the end of the table may change at any time. -/
inductive LaterState (ds : List E820RangeDescriptor) (m : Memory) : Memory → Prop
  | refl : LaterState ds m m
  | call {m' m'' : Memory} {c : MemoryCall} : LaterState ds m m' → c.run m' = some m'' →
      (∀ page, c = .freePage page → RealFrame ds (frameOf page.physicalAddress) ∨
        m'.owned (frameOf page.physicalAddress) = true) → LaterState ds m m''
  | beyond {m' : Memory} (frames : Nat → PhysicalFrame) : LaterState ds m m' →
      (∀ f < physFramesCapacity (sizedTotal ds), frames f = m'.physFrames f) →
      LaterState ds m { m' with physFrames := frames }

/-- A frame that is no available memory stays marked. -/
theorem LaterState.keeps (later : LaterState ds m m') :
    m'.totalMem = m.totalMem ∧ ∀ f ≠ 0, f < physFramesCapacity (sizedTotal ds) →
      ¬RealFrame ds f → m.marked f = true → m'.marked f = true := by
  induction later with
  | refl => exact ⟨rfl, fun _ _ _ _ h => h⟩
  | @call m' m'' c _ run frees ih =>
    refine ⟨(MemoryCall.run_owned run).totalMem.trans ih.1, fun f hf inside unreal marked => ?_⟩
    have before := ih.2 f hf inside unreal marked
    by_cases free : ∃ page, c = .freePage page
    · obtain ⟨page, rfl⟩ := free
      cases run
      refine freePage_marked hf before ?_
      by_cases same : f = frameOf page.physicalAddress
      · exact .inr (same ▸ (frees page rfl).resolve_left (same ▸ unreal))
      · exact .inl same
    · exact (MemoryCall.run_marks run fun page eq => free ⟨page, eq⟩).marked f hf before
  | beyond frames _ same ih =>
    refine ⟨ih.1, fun f hf inside unreal marked => ?_⟩
    rw [Memory.marked]
    dsimp only
    rw [same f inside]
    exact ih.2 f hf inside unreal marked

/-- Every frame that the scan gets to is available memory, or has an entry in the table that is
marked. -/
def OnlyRealMemory (frames : Nat → PhysicalFrame) (ds : List E820RangeDescriptor) : Prop :=
  ∀ f ≠ 0, f * 0x1000 < (sizedTotal ds + sizedTotal ds).toNat →
    RealFrame ds f ∨ f < physFramesCapacity (sizedTotal ds) ∧ Withheld frames ds f

/-! ## A map with 64 MiB

The total of its first range, the only one that is enumerated, is 64 MiB. The frames after those of
the kernel and of the table lie above that. -/

def smallMap (d : E820RangeDescriptor) : List E820RangeDescriptor := [⟨0, 0x4000000, 1⟩, d]

def noRegions : TaskMemoryDefinition := zeroTask.memoryData

/-- RAM is zero, and the PML4 of `boot2.s` lies in frame 1. -/
def smallBoot : Memory := bootMemory (fun _ _ => 0) (fun _ => ⟨0, 0⟩) 0x1000

/-- The frame table of the small map. -/
def smallTable : Memory where
  ram := (dropIdentityMap smallBoot).ram
  physFrames f := if f < 0x4021 then ⟨0, 0b101⟩ else ⟨0, 0⟩
  totalMem := 0x8000000
  availableMem := 0x8000000
  physicalPagesUsed := 0
  virtualMemorySize := 32
  paging := ⟨0x1000, 0x1000, 0x1000⟩

variable (d : E820RangeDescriptor)

theorem smallMap_enumerated : enumerated (smallMap d) = [⟨0, 0x4000000, 1⟩] := by
  have offset : e820CurOffset (smallMap d) = 48 := rfl
  have count : ((48 : U32) / 24 - 1).toNat = 1 := by decide
  rw [enumerated, offset, count]
  rfl

theorem smallMap_total : sizedTotal (smallMap d) = 0x4000000 := by
  rw [sizedTotal, smallMap_enumerated, rangeTotal, rangeTotal]
  decide

theorem enumerate_smallMap (doDirty : Bool) (m : Memory) :
    enumerateE820 0 doDirty m (smallMap d) = some { m with
      totalMem := m.totalMem + 0x4000000
      availableMem := m.availableMem + 0x4000000 } := by
  rw [enumerateE820, smallMap_enumerated]
  rfl

theorem small_filled : initFrames 0 (dropIdentityMap smallBoot) (smallMap d) =
    some (smallTable, 0x4020) := by
  have pages : kernelPageCount + physFramesPages (0 + 0x4000000) = 0x4020 := by decide
  rw [initFrames, enumerate_smallMap]
  simp only [Option.bind_eq_bind, Option.bind_some, enumerate_smallMap, Option.some.injEq,
    Prod.mk.injEq]
  have total : (dropIdentityMap smallBoot).totalMem = 0 := rfl
  have count : ((0x4020 : U64) + 1).toNat = 0x4021 := by decide
  refine ⟨?_, pages⟩
  simp only [total, pages, count, reserveFrames, smallTable]
  rfl

theorem smallTable_ram (f i : Nat) : smallTable.ram f i = 0 := by
  simp only [smallTable, dropIdentityMap, smallBoot, bootMemory]
  by_cases h : f = frameOf 0x1000
  · rw [h, Function.update_self, ite_self]
  · rw [Function.update_of_ne h]

theorem smallTable_tableAt {p : List (Fin 512)} {u : Nat} (h : smallTable.tableAt 1 p = some u) :
    p = [] ∧ u = 1 := by
  cases p with
  | nil => exact ⟨rfl, (Option.some.inj h).symm⟩
  | cons i p =>
    have absent : link (smallTable.tables 1 i) = none := by
      rw [Memory.tables, smallTable_ram]
      exact link_zero
    rw [Memory.tableAt, RadixTree.tableAt, absent] at h
    cases h

theorem smallTable_isTable {u : Nat} (h : IsTable smallTable {1} u) : u = 1 := by
  obtain ⟨r, rfl, p, -, hu⟩ := h
  exact (smallTable_tableAt hu).2

theorem smallTable_forest : Forest smallTable {1} where
  separated := by
    rintro r r' p q u rfl rfl - - h₁ h₂
    exact ⟨(smallTable_tableAt h₁).1.trans (smallTable_tableAt h₂).1.symm, .inl rfl⟩
  marked u hu := by rw [smallTable_isTable hu]; decide
  inMemory u hu := by rw [smallTable_isTable hu]; decide
  small := by decide

theorem smallTable_hasFree : smallTable.HasFree 6 := by
  refine ⟨{0x4021, 0x4022, 0x4023, 0x4024, 0x4025, 0x4026}, by decide, fun f hf => ?_⟩
  have range : 0x4021 ≤ f ∧ f ≤ 0x4026 := by
    simp only [Finset.mem_insert, Finset.mem_singleton] at hf
    omega
  refine ⟨?_, ?_⟩
  · have count : frameCount smallTable = 0x8000 := by decide
    omega
  · have unmarked : ¬f < 0x4021 := by omega
    simp [Memory.marked, smallTable, unmarked]

/-- The regions of the kernel task when `Create_User_Memory` is called. -/
def smallRegions : TaskMemoryDefinition :=
  { noRegions with baseVirtualAddress := virtualMemoryBarrier, pageCount := 0x4020 }

theorem initMem_of_steps {m₁ m₂ : Memory} {a : U64}
    (filled : initFrames fuel (dropIdentityMap m) ds = some (m₁, pageCount))
    (created : createUserMemory m₁ { kernelMemory with
      baseVirtualAddress := virtualMemoryBarrier, pageCount := pageCount } = some (m₂, t, a))
    (mapped : mapPhysical { m₂ with paging := ⟨a, a, a⟩ } mappedAtBoot (physicalPages m₂) =
      some m') : initMem fuel m kernelMemory ds = some (m', t, a) := by
  rw [initMem, filled, Option.bind_eq_bind, Option.bind_some]
  dsimp only
  rw [created, Option.bind_eq_bind, Option.bind_some]
  exact congrArg (·.bind fun m => some (m, t, a)) mapped

/-- The machine boots, and a frame above the kernel's is left. -/
theorem small_booted : ∃ m t pml4, initMem 0 smallBoot noRegions (smallMap d) = some (m, t, pml4) ∧
    findNextFreePhysical m ≠ 0 ∧ 0x4021 ≤ frameOf (findNextFreePhysical m) := by
  obtain ⟨m₁, a, created, space, -, free, -⟩ := createUserMemory_spec (k := 1) (t := smallRegions)
    smallTable_forest (by decide) rfl (by decide) smallTable_hasFree
  have total : m₁.totalMem = 0x8000000 := (createUserMemory_layout created).2.1
  have none_left : physicalPages m₁ = 0 := by
    rw [physicalPages, frameCount, total]
    decide
  have mapped : mapPhysical { m₁ with paging := ⟨a, a, a⟩ } mappedAtBoot (physicalPages m₁) =
      some { m₁ with paging := ⟨a, a, a⟩ } := by
    rw [none_left]
    rfl
  have booted := initMem_of_steps (small_filled d) created mapped
  refine ⟨_, _, a, booted, ?_⟩
  have taken (f : Nat) (hf : f < 0x4021) : m₁.marked f = true := by
    have before : smallTable.marked f = true := by
      simp [Memory.marked, smallTable, hf]
    rcases space.keeps.flags f with same | ⟨unmarked, -⟩
    · rwa [Memory.marked, same]
    · exact absurd before unmarked.not_marked
  obtain ⟨left, -⟩ := findNextFreePhysical_free (m := { m₁ with paging := ⟨a, a, a⟩ })
    (by dsimp only; rw [total]; decide) free
  have above : 0x4021 ≤ frameOf (findNextFreePhysical { m₁ with paging := ⟨a, a, a⟩ }) := by
    by_contra low
    exact left.not_marked (taken _ (by omega))
  refine ⟨fun zero => ?_, above⟩
  rw [zero] at above
  exact absurd above (by decide)

/-! ## The two properties -/

/-- If every frame up to twice the total is available memory or withheld, the allocator hands out
nothing but available memory. -/
theorem real_memory_only (booted : initMem fuel (bootMemory ram frames cr3) kernelMemory ds =
    some (m, t, pml4)) (only : OnlyRealMemory frames ds) (later : LaterState ds m m')
    (found : findNextFreePhysical m' ≠ 0) :
    RealFrame ds (frameOf (findNextFreePhysical m')) := by
  obtain ⟨total, marks⟩ := initMem_spec booted
  obtain ⟨total', keeps⟩ := later.keeps
  obtain ⟨f, hf, inRange, unmarked, rfl⟩ := findNextFreePhysical_cases found
  by_contra unreal
  unfold frameCount at inRange
  obtain ⟨inside, withheld⟩ := (only _ hf (by rw [← total, ← total']; omega)).resolve_left unreal
  have marked := keeps _ hf inside unreal (marks _ hf withheld)
  rw [unmarked] at marked
  cases marked

/-- The second range continues the first. -/
theorem smallMap_real : OnlyRealMemory (fun _ => ⟨0, 0⟩) (smallMap ⟨0x4000000, 0x4000000, 1⟩) := by
  intro f _ inRange
  have total : (sizedTotal (smallMap ⟨0x4000000, 0x4000000, 1⟩) +
      sizedTotal (smallMap ⟨0x4000000, 0x4000000, 1⟩)).toNat = 0x8000000 := by
    rw [smallMap_total]
    decide
  rw [total] at inRange
  have first : (⟨0, 0x4000000, 1⟩ : E820RangeDescriptor).limit = 0x4000000 := rfl
  have second : (⟨0x4000000, 0x4000000, 1⟩ : E820RangeDescriptor).limit = 0x8000000 := rfl
  by_cases low : f < 0x4000
  · exact .inl ⟨_, List.mem_cons_self, rfl, Nat.zero_le _, by rw [first]; omega⟩
  · refine .inl ⟨_, List.mem_cons_of_mem _ List.mem_cons_self, rfl, ?_, by rw [second]; omega⟩
    have base : (0x4000000 : U64).toNat = 0x4000000 := rfl
    rw [base]
    omega

theorem real_memory_small : ∃ m t pml4,
    initMem 0 smallBoot noRegions (smallMap ⟨0x4000000, 0x4000000, 1⟩) = some (m, t, pml4) ∧
      RealFrame (smallMap ⟨0x4000000, 0x4000000, 1⟩) (frameOf (findNextFreePhysical m)) := by
  obtain ⟨m, t, pml4, booted, found, -⟩ := small_booted ⟨0x4000000, 0x4000000, 1⟩
  exact ⟨m, t, pml4, booted, real_memory_only booted smallMap_real .refl found⟩

/-- Above the 64 MiB there is nothing, and the allocator hands it out. -/
theorem hands_out_nothing : ¬∀ (fuel : Nat) (ram : Nat → Nat → U64) (frames : Nat → PhysicalFrame)
    (cr3 : U64) (kernelMemory : TaskMemoryDefinition) (ds : List E820RangeDescriptor)
    (m m' : Memory) (t : TaskMemoryDefinition) (pml4 : U64),
    initMem fuel (bootMemory ram frames cr3) kernelMemory ds = some (m, t, pml4) →
      LaterState ds m m' → findNextFreePhysical m' ≠ 0 →
        RealFrame ds (frameOf (findNextFreePhysical m')) := by
  intro claimed
  obtain ⟨m, t, pml4, booted, found, above⟩ := small_booted ⟨0xFFFC0000, 0x40000, 2⟩
  obtain ⟨e, he, available, -, top⟩ := claimed _ _ _ _ _ _ m m t pml4 booted .refl found
  have limit : (⟨0, 0x4000000, 1⟩ : E820RangeDescriptor).limit = 0x4000000 := rfl
  simp only [smallMap, List.mem_cons, List.not_mem_nil, or_false] at he
  rcases he with rfl | rfl
  · rw [limit] at top
    omega
  · exact absurd available (by decide)

/-- The indexes of `phys_frames` that are used, during `InitMem`, which ends in the state `m`, and
later. -/
inductive FrameIndex (ds : List E820RangeDescriptor) (m : Memory) : Nat → Prop
  | marked {i : Nat} : i < kernelFrames ds → FrameIndex ds m i
  | reserved {i : Nat} : ReservedPage (enumerated ds) i → FrameIndex ds m i
  | mapped {i : Nat} : frameOf mappedAtBoot ≤ i → i < frameCount m → FrameIndex ds m i
  | scanned {m' : Memory} {i : Nat} : LaterState ds m m' → i < frameCount m' →
      (∀ j < i, m'.marked j = true) → FrameIndex ds m i
  /-- Strides of `n` pages; each stride that was left had a page in use. -/
  | strided {m' : Memory} {n s i : Nat} : LaterState ds m m' → s * n < frameCount m' → i < n →
      (∀ r < s, ∃ j < n, m'.marked (r * n + j) = true) → FrameIndex ds m (s * n + i)
  | allocated {m' : Memory} {page : PageDetails} : LaterState ds m m' →
      page.physicalAddress < m'.totalMem → FrameIndex ds m (frameOf page.physicalAddress)
  | freed {m' : Memory} {page : PageDetails} : LaterState ds m m' →
      freeOutOfBounds m' page.virtualAddress = false →
      (RealFrame ds (frameOf page.physicalAddress) ∨
        m'.owned (frameOf page.physicalAddress) = true) →
      FrameIndex ds m (frameOf page.physicalAddress)

/-- No index lies past the end of the table, and the total the scans go by is the one that the
table was sized for. -/
structure TableRespected (ds : List E820RangeDescriptor) (m : Memory) : Prop where
  index : ∀ i, FrameIndex ds m i → i < physFramesCapacity (sizedTotal ds)
  total : ∀ m', LaterState ds m m' → m'.totalMem = sizedTotal ds

theorem physFramesPages_toNat {total : U64} (h : total.toNat < 2 ^ 62) :
    (physFramesPages total).toNat = (total.toNat / 0x1000 * 8 + 0xFFF) / 0x1000 := by
  have page : (0x1000 : U64).toNat = 0x1000 := rfl
  have entry : physicalFrameSize.toNat = 8 := rfl
  have round : (0xFFF : U64).toNat = 0xFFF := rfl
  rw [physFramesPages, BitVec.toNat_udiv, BitVec.toNat_add, BitVec.toNat_mul, BitVec.toNat_udiv,
    page, entry, round]
  omega

/-- An index past the end, for every map. The loop that marks the kernel's frames runs past a table
for 64 MiB or less, and the loop that maps physical memory past a larger one. -/
theorem index_past_table (total : m.totalMem = sizedTotal ds + sizedTotal ds)
    (small : (sizedTotal ds).toNat < 2 ^ 62) :
    ∃ i, FrameIndex ds m i ∧ physFramesCapacity (sizedTotal ds) ≤ i := by
  have pages := physFramesPages_toNat small
  have entry : physicalFrameSize.toNat = 8 := rfl
  by_cases few : (sizedTotal ds).toNat ≤ 0x4000000
  · have frames : kernelFrames ds = 16384 + (physFramesPages (sizedTotal ds)).toNat + 1 := by
      have kernel : kernelPageCount.toNat = 16384 := rfl
      have one : (1 : U64).toNat = 1 := rfl
      rw [kernelFrames, BitVec.toNat_add, BitVec.toNat_add, kernel, one]
      omega
    refine ⟨kernelFrames ds - 1, .marked (by omega), ?_⟩
    rw [physFramesCapacity, entry, frames]
    omega
  · have count : frameCount m = (2 * (sizedTotal ds).toNat + 0xFFF) / 0x1000 := by
      rw [frameCount, total, BitVec.toNat_add]
      omega
    have start : frameOf mappedAtBoot = 0x8000 := by decide
    refine ⟨frameCount m - 1, .mapped (by omega) (by omega), ?_⟩
    rw [physFramesCapacity, entry, pages, count]
    omega

/-- The table is overrun on every machine. -/
theorem table_never_respected (booted : initMem fuel (bootMemory ram frames cr3) kernelMemory ds =
    some (m, t, pml4)) : ¬TableRespected ds m := by
  intro respected
  obtain ⟨total, -⟩ := initMem_spec booted
  by_cases small : (sizedTotal ds).toNat < 2 ^ 62
  · obtain ⟨i, used, past⟩ := index_past_table total small
    exact absurd (respected.index i used) (Nat.not_lt.mpr past)
  · have same := respected.total m .refl
    rw [total] at same
    have doubled := congrArg BitVec.toNat same
    rw [BitVec.toNat_add] at doubled
    omega

theorem table_never_respected_small : ∃ m t pml4, initMem 0 smallBoot noRegions
    (smallMap ⟨0xFFFC0000, 0x40000, 2⟩) = some (m, t, pml4) ∧
      ¬TableRespected (smallMap ⟨0xFFFC0000, 0x40000, 2⟩) m := by
  obtain ⟨m, t, pml4, booted, -⟩ := small_booted ⟨0xFFFC0000, 0x40000, 2⟩
  exact ⟨m, t, pml4, booted, table_never_respected booted⟩

/-- The table is sized for 64 MiB, and `total_mem` is 128 MiB afterwards. -/
theorem total_doubles : ¬∀ (fuel : Nat) (ram : Nat → Nat → U64) (frames : Nat → PhysicalFrame)
    (cr3 : U64) (kernelMemory : TaskMemoryDefinition) (ds : List E820RangeDescriptor)
    (m : Memory) (t : TaskMemoryDefinition) (pml4 : U64),
    initMem fuel (bootMemory ram frames cr3) kernelMemory ds = some (m, t, pml4) →
      TableRespected ds m := by
  intro claimed
  obtain ⟨m, t, pml4, booted, -⟩ := small_booted ⟨0xFFFC0000, 0x40000, 2⟩
  have same := (claimed _ _ _ _ _ _ m t pml4 booted).total m .refl
  rw [(initMem_spec booted).1, smallMap_total] at same
  exact absurd same (by decide)

end ChudOS
