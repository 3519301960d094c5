import ChudOS.BootTables
import ChudOS.FrameTable
import ChudOS.LowLevel.DirectMap

/-!
# Physical memory in the kernel's half

`InitMem` takes the page tables of the boot loader over and completes them: every frame is found at
its direct page. The pages that `malloc` maps afterwards lie in the same range of addresses, and
only one that happens to get the frame of that number leaves the map as it was.
-/

namespace ChudOS

open Memory Boot2

variable {m m' : Memory} {P f n fuel : Nat} {t u : Nat} {p : List (Fin 512)}
  {ram : Nat → Nat → U64} {frames : Nat → PhysicalFrame} {ds : List E820RangeDescriptor}

/-- At least `n` of the frames below `b` are free. -/
def Memory.HasFreeBelow (m : Memory) (n b : Nat) : Prop :=
  ∃ s : Finset Nat, n ≤ s.card ∧ ∀ f ∈ s, f < b ∧ m.Free f

theorem Memory.HasFreeBelow.mono {b c : Nat} (h : m.HasFreeBelow n b) (le : b ≤ c) :
    m.HasFreeBelow n c := by
  obtain ⟨s, card, free⟩ := h
  exact ⟨s, card, fun f mem => ⟨(free f mem).1.trans_le le, (free f mem).2⟩⟩

theorem Memory.HasFreeBelow.hasFree {b : Nat} (h : m.HasFreeBelow n b) : m.HasFree n := by
  obtain ⟨s, le, free⟩ := h
  exact ⟨s, le, fun f mem => (free f mem).2⟩

/-! ## The tables of the boot loader -/

theorem drop_bootTables (tables : BootTables true m.ram P) (current : frameOf m.paging.cr3 = P) :
    BootTables false (dropIdentityMap m).ram P := by
  have other (g : Nat) (ne : g ≠ P) : (dropIdentityMap m).ram g = m.ram g := by
    rw [dropIdentityMap]
    simp only [current]
    exact Function.update_of_ne ne _ _
  refine ⟨fun i lt => ?_, fun i lt => ?_, fun i lt => ?_, fun j hj real i lt => ?_⟩
  · rw [dropIdentityMap]
    simp only [current, Function.update_self, Bool.false_eq_true, and_false, false_or]
    split_ifs with low high
    · omega
    · rfl
    · rw [tables.pml4 i lt, if_pos (.inr ‹_›)]
    · rw [tables.pml4 i lt, if_neg (by omega)]
  · rw [other _ (by omega), tables.pdpt i lt]
  · rw [other _ (by omega), tables.pd i lt]
  · rw [other _ (by omega), tables.pt j hj real i lt]

/-- The paths to the tables. -/
theorem Boot2.BootTables.paths (tables : BootTables false m.ram P) (fits : P + 0x43 ≤ 2 ^ 20)
    (short : p.length ≤ 3) (ht : m.tableAt P p = some t) :
    p = [] ∧ t = P ∨ p = [256] ∧ t = P + 1 ∨ p = [256, 0] ∧ t = P + 2 ∨
      ∃ j : Fin 512, j.val < 64 ∧ p = [256, 0, j] ∧ t = P + 3 + j := by
  have step {i : Fin 512} {q : List (Fin 512)} {r s : Nat} (h : m.tableAt r (i :: q) = some s) :
      ∃ u, link (m.ram r i) = some u ∧ m.tableAt u q = some s := Option.bind_eq_some_iff.mp h
  match p, short with
  | [], _ => exact .inl ⟨rfl, (Option.some.inj ht).symm⟩
  | i :: q, short =>
    obtain ⟨u, first, ht⟩ := step ht
    rw [tables.pml4 i i.isLt] at first
    simp only [Bool.false_eq_true, and_false, false_or] at first
    split_ifs at first with top
    · rw [link_present (by omega)] at first
      obtain rfl : i = 256 := Fin.ext top
      obtain rfl := Option.some.inj first
      match q, short with
      | [], _ => exact .inr (.inl ⟨rfl, (Option.some.inj ht).symm⟩)
      | j :: q, short =>
        obtain ⟨u, second, ht⟩ := step ht
        rw [tables.pdpt j j.isLt] at second
        split_ifs at second with middle
        · rw [link_present (by omega)] at second
          obtain rfl : j = 0 := Fin.ext middle
          obtain rfl := Option.some.inj second
          match q, short with
          | [], _ => exact .inr (.inr (.inl ⟨rfl, (Option.some.inj ht).symm⟩))
          | [l], _ =>
            obtain ⟨u, third, ht⟩ := step ht
            rw [tables.pd l l.isLt] at third
            split_ifs at third with present
            · rw [link_present (by omega)] at third
              obtain rfl := Option.some.inj third
              exact .inr (.inr (.inr ⟨l, present, rfl, (Option.some.inj ht).symm⟩))
            · rw [link_zero] at third
              cases third
          | _ :: _ :: _, short =>
            simp only [List.length_cons] at short
            omega
        · rw [link_zero] at second
          cases second
    · rw [link_zero] at first
      cases first

/-- The address space of the boot loader is separated, once the lower half is gone. -/
theorem Boot2.BootTables.forest (tables : BootTables false m.ram P) (fits : P + 0x43 ≤ 2 ^ 20)
    (marked : ∀ f < P + 0x43, m.marked f = true) (inside : P + 0x43 ≤ frameCount m)
    (small : m.totalMem.toNat < 2 ^ 47) : Forest m {P} := by
  have bound {t : Nat} (ht : IsTable m {P} t) : t < P + 0x43 := by
    obtain ⟨r, rfl, p, hp, ht⟩ := ht
    obtain ⟨-, rfl⟩ | ⟨-, rfl⟩ | ⟨-, rfl⟩ | ⟨j, lt, -, rfl⟩ := tables.paths fits hp ht <;> omega
  refine ⟨?_, fun t ht => marked t (bound ht), fun t ht => ?_, small⟩
  · rintro r r' p q t rfl rfl hp hq h₁ h₂
    refine ⟨?_, .inl rfl⟩
    obtain ⟨rfl, at₁⟩ | ⟨rfl, at₁⟩ | ⟨rfl, at₁⟩ | ⟨j, lt, rfl, at₁⟩ := tables.paths fits hp h₁ <;>
      obtain ⟨rfl, at₂⟩ | ⟨rfl, at₂⟩ | ⟨rfl, at₂⟩ | ⟨l, lt', rfl, at₂⟩ := tables.paths fits hq h₂ <;>
      first
        | rfl
        | omega
        | (have same : j = l := Fin.ext (by omega)
           rw [same])
  · have := bound ht
    omega

theorem found_walk (m : Memory) (root : Nat) (v : U64) :
    found m root v = (walkEntry m root v).bind link := by
  rw [walkEntry_eq]
  rfl

/-- What the boot loader's tables show in the kernel's half. -/
theorem Boot2.BootTables.found (tables : BootTables false m.ram P) (fits : P + 0x43 ≤ 2 ^ 20)
    (low : f < 0x8000) (real : ¬ videoMemory (P + 3 + f / 512)) :
    found m P (directPage f) = some f := by
  have place := directPage_toNat (show f < 2 ^ 35 by omega)
  have offset : (directPage f).toNat % 2 ^ 47 = f * 0x1000 := by omega
  have table : (directPage f).toNat % 2 ^ 47 / 2 ^ 21 = f / 512 := by omega
  rw [found_walk, (tables.walk fits _).1 (by omega) (fun half => by omega)
      (by rw [table]; exact real),
    Option.bind_some, link_present (by omega), offset, Nat.mul_div_cancel f (by decide)]

/-! ## The tables that `InitMem` needs -/

/-- The entry of its table for the `i`-th part of an address. -/
def tableSlot (i : Nat) : Fin 512 := ⟨i % 512, by omega⟩

/-- The paths to the tables of the direct map. -/
def directPaths (N : Nat) : Finset (List (Fin 512)) :=
  (Finset.range (N / 2 ^ 27 + 1)).image (fun i => [tableSlot (256 + i)]) ∪
    (Finset.range (N / 2 ^ 18 + 1)).image
      (fun i => [tableSlot (256 + i / 512), tableSlot i]) ∪
    (Finset.range (N / 2 ^ 9 + 1)).image
      fun i => [tableSlot (256 + i / 2 ^ 18), tableSlot (i / 512), tableSlot i]

/-- How many frames they take at most. -/
def directTables (N : Nat) : Nat := N / 2 ^ 27 + N / 2 ^ 18 + N / 2 ^ 9 + 3

theorem directPaths_card (N : Nat) : (directPaths N).card ≤ directTables N := by
  have first := Finset.card_union_le ((Finset.range (N / 2 ^ 27 + 1)).image
    (fun i => [tableSlot (256 + i)]) ∪ (Finset.range (N / 2 ^ 18 + 1)).image
      (fun i => [tableSlot (256 + i / 512), tableSlot i]))
    ((Finset.range (N / 2 ^ 9 + 1)).image
      fun i => [tableSlot (256 + i / 2 ^ 18), tableSlot (i / 512), tableSlot i])
  have second := Finset.card_union_le ((Finset.range (N / 2 ^ 27 + 1)).image
    (fun i => [tableSlot (256 + i)])) ((Finset.range (N / 2 ^ 18 + 1)).image
      (fun i => [tableSlot (256 + i / 512), tableSlot i]))
  have one := Finset.card_image_le (s := Finset.range (N / 2 ^ 27 + 1))
    (f := fun i => [tableSlot (256 + i)])
  have two := Finset.card_image_le (s := Finset.range (N / 2 ^ 18 + 1))
    (f := fun i => [tableSlot (256 + i / 512), tableSlot i])
  have three := Finset.card_image_le (s := Finset.range (N / 2 ^ 9 + 1))
    (f := fun i => [tableSlot (256 + i / 2 ^ 18), tableSlot (i / 512), tableSlot i])
  rw [Finset.card_range] at one two three
  unfold directPaths directTables
  omega

theorem directPaths_short (N : Nat) : ∀ p ∈ directPaths N, p.length ≤ 3 := by
  intro p hp
  simp only [directPaths, Finset.mem_union, Finset.mem_image] at hp
  rcases hp with (⟨i, -, rfl⟩ | ⟨i, -, rfl⟩) | ⟨i, -, rfl⟩ <;> simp

theorem directPaths_covers {N : Nat} (le : f ≤ N) (lt : f < 2 ^ 35) :
    Covers (directPaths N) (directPage f) := by
  have place := directPage_toNat lt
  have first : (⟨(directPage f).toNat / 2 ^ 39 % 512, by omega⟩ : Fin 512) =
      tableSlot (256 + f / 2 ^ 27) := Fin.ext (by simp only [tableSlot]; omega)
  have second : (⟨(directPage f).toNat / 2 ^ 30 % 512, by omega⟩ : Fin 512) =
      tableSlot (f / 2 ^ 18) := Fin.ext (by simp only [tableSlot]; omega)
  have third : (⟨(directPage f).toNat / 2 ^ 21 % 512, by omega⟩ : Fin 512) =
      tableSlot (f / 2 ^ 9) := Fin.ext (by simp only [tableSlot]; omega)
  intro k pos le
  simp only [pathOf, first, second, third, directPaths, Finset.mem_union, Finset.mem_image,
    Finset.mem_range]
  have cases_k : k = 1 ∨ k = 2 ∨ k = 3 := by omega
  obtain rfl | rfl | rfl := cases_k
  · exact .inl (.inl ⟨f / 2 ^ 27, by omega, rfl⟩)
  · refine .inl (.inr ⟨f / 2 ^ 18, by omega, ?_⟩)
    rw [Nat.div_div_eq_div_mul]
    rfl
  · refine .inr ⟨f / 2 ^ 9, by omega, ?_⟩
    rw [Nat.div_div_eq_div_mul, Nat.div_div_eq_div_mul]
    rfl

/-! ## The map after `InitMem` -/

theorem findNextFreePhysical_first (small : m.totalMem.toNat < 2 ^ 47) (free : m.Free f)
    (below : ∀ g < f, m.marked g = true) : findNextFreePhysical m = physOf f := by
  have count := frameCount_lt small
  have found : (List.range (frameCount m)).find? (fun f => !memGetBit m (physOf f)) = some f := by
    refine List.find?_range_eq_some.mpr ⟨?_, List.mem_range.mpr free.1, fun g lt => ?_⟩
    · have := free.1
      rw [memGetBit_physOf (by omega), free.2]
      rfl
    · have := free.1
      rw [memGetBit_physOf (by omega), below g lt]
      rfl
  unfold findNextFreePhysical
  rw [found]

section InitMem

variable {m₁ : Memory} {pageCount : U64} {kernelMemory : TaskMemoryDefinition}

/-- The page after those of the kernel gets the new PML4; above the tables of the boot loader every
frame that is not dirty is mapped. -/
theorem initMem_found (tables : BootTables true ram P) (low : P + 0x43 ≤ 2 ^ 14)
    (filled : initFrames fuel (dropIdentityMap (bootMemory ram frames (physOf P))) ds =
      some (m₁, pageCount)) (small : (sizedTotal ds).toNat < 2 ^ 46)
    (inside : P + 0x43 ≤ frameCount m₁)
    (enough : m₁.HasFree (directTables (frameCount m₁) + 5)) :
    ∃ m t pml4 n, initMem fuel (bootMemory ram frames (physOf P)) kernelMemory ds =
        some (m, t, pml4) ∧ findNextFreePhysical m₁ = physOf n ∧ m.paging.cr3 = pml4 ∧
      frameOf pml4 = n ∧
      (∀ f a, ToMap m₁ 0x8000 (frameCount m₁ - 0x8000) f → pageNumber a = 2 ^ 35 + f →
        translate m a = some f) ∧
      ∀ a, (∀ f, ToMap m₁ 0x8000 (frameCount m₁ - 0x8000) f → pageNumber a ≠ 2 ^ 35 + f) →
        translate m a = if pageNumber a < 2 ^ 35 then none
          else if pageNumber a = 2 ^ 35 + kernelFrames ds then some n else found m₁ P a := by
  obtain ⟨same, paging, total, count, marks⟩ := initFrames_spec rfl filled
  have pages := physFramesPages_toNat (show (sizedTotal ds).toNat < 2 ^ 62 by omega)
  have kernel : kernelPageCount.toNat = 2 ^ 14 := rfl
  have size : pageCount.toNat = 2 ^ 14 + (physFramesPages (sizedTotal ds)).toNat := by
    rw [count, BitVec.toNat_add, kernel]
    omega
  have reserved : kernelFrames ds = pageCount.toNat + 1 := by
    have one : (1 : U64).toNat = 1 := rfl
    rw [kernelFrames, ← count, BitVec.toNat_add, one]
    omega
  have half : m₁.totalMem.toNat < 2 ^ 47 := by
    rw [total, BitVec.toNat_add]
    omega
  have tables' : BootTables false m₁.ram P := by
    rw [same]
    exact drop_bootTables tables (frameOf_physOf (show P < 2 ^ 52 by omega))
  have forest : Forest m₁ {P} := tables'.forest (by omega)
    (fun f lt => marks f (.inl (by omega))) inside half
  have current : frameOf m₁.paging.pml4Physical = P := by
    rw [paging]
    exact frameOf_physOf (by omega)
  have selected : m₁.paging.cr3 = m₁.paging.pml4Physical := by rw [paging]; rfl
  let regions : TaskMemoryDefinition :=
    { kernelMemory with baseVirtualAddress := virtualMemoryBarrier, pageCount := pageCount }
  have next : nextPageAddress regions = directPage (kernelFrames ds) := by
    rw [reserved]
    exact nextPageAddress_direct rfl (show pageCount.toNat + 1 < 2 ^ 35 by omega)
  have bound : kernelFrames ds < 2 ^ 35 := by omega
  obtain ⟨n, m₂, a, first, frame, created, space, free, dirty, shown⟩ :=
    createUserMemory_found (t := regions) forest current selected (next ▸ directPage_high bound) enough
  have layout := createUserMemory_layout created
  -- the new address space is switched to
  let m₃ : Memory := { m₂ with paging := ⟨a, a, a⟩ }
  have forest₃ : Forest m₃ (insert n {P}) :=
    space.forest.of_frames rfl rfl space.forest.marked
  have frames₃ : frameCount m₃ = frameCount m₁ := by
    unfold frameCount
    rw [show m₃.totalMem = m₁.totalMem from layout.2.1]
  have visits : physicalPages m₂ = frameCount m₁ - 0x8000 := by
    rw [← frames₃]
    rfl
  have limit := frameCount_lt half
  have start : mappedAtBoot = physOf 0x8000 := by decide
  have dirty₃ (f : Nat) : ToMap m₃ 0x8000 (frameCount m₁ - 0x8000) f ↔
      ToMap m₁ 0x8000 (frameCount m₁ - 0x8000) f := by
    unfold ToMap
    rw [show (m₃.physFrames f).flags &&& 0b10 = (m₁.physFrames f).flags &&& 0b10 from dirty f]
  obtain ⟨m, mapped, maps, above, rest⟩ := @mapPhysical_direct m₃ _ n
    (frameCount m₁ - 0x8000) 0x8000 (directPaths (frameCount m₁)) frame
    (Set.mem_insert n {P}) (directPaths_short _) forest₃ (by rw [frames₃])
    (fun f _ lt => directPaths_covers (by omega) (by omega))
    (Memory.HasFree.mono (m := m₃) free ((Finset.card_filter_le _ _).trans (directPaths_card _)))
  have result := @initMem_of_steps _ _ _ _ _ kernelMemory _ _ _ _ filled created
    (by rw [visits, start]; exact mapped)
  have root : m.paging.cr3 = a := congrArg Paging.cr3 maps.layout.1
  refine ⟨m, _, a, n, result, first, root, frame, fun f v h place => ?_, fun v away => ?_⟩
  · rw [translate_found, root, frame]
    exact above f v ((dirty₃ f).mpr h) place
  · rw [translate_found, root, frame, rest v fun f h => away f ((dirty₃ f).mp h)]
    refine (shown v).trans ?_
    rw [next, pageNumber_directPage bound, current]

/-- The physical addresses that the map is made for: below 128 MiB those whose table lies in RAM,
above those of frames that are not dirty. The frame after the kernel's is lost if it is in use. -/
def InMap (m₁ : Memory) (P : Nat) (ds : List E820RangeDescriptor) (f : Nat) : Prop :=
  if f < 0x8000 then ¬ videoMemory (P + 3 + f / 512) ∧ (f = kernelFrames ds → m₁.Free f)
  else (m₁.physFrames f).flags &&& 0b10 ≠ 0b10

theorem pageNumber_direct {a : U64} (small : a.toNat < 2 ^ 47) :
    pageNumber (a + virtualMemoryBarrier) = 2 ^ 35 + frameOf a := by
  have barrier : virtualMemoryBarrier.toNat = 0xffff800000000000 := rfl
  rw [pageNumber, BitVec.toNat_add, barrier, frameOf]
  omega

end InitMem

/-- The tables of the boot loader show the frames below this one in the kernel's half. `InitMem`
reaches every table by its direct page, also those that it adds. -/
def shownAtBoot (P : Nat) : Nat := min 0x8000 (512 * (0xA0 - (P + 3)))

theorem Boot2.BootTables.shown (tables : BootTables false m.ram P) (fits : P + 0x43 ≤ 2 ^ 20)
    (current : frameOf m.paging.cr3 = P) (early : f < shownAtBoot P) :
    translate m (directPage f) = some f := by
  unfold shownAtBoot at early
  have real : ¬ videoMemory (P + 3 + f / 512) := by
    rintro ⟨video, -⟩
    omega
  rw [translate_found, current]
  exact tables.found fits (by omega) real

/-- The frame table has an entry for each frame that is marked from the start. Those past its end
would lie in memory that is handed out. -/
structure EntriesInTable (ds : List E820RangeDescriptor) : Prop where
  kernel : kernelFrames ds ≤ physFramesCapacity (sizedTotal ds)
  reserved : ∀ f, ReservedPage (enumerated ds) f → f < physFramesCapacity (sizedTotal ds)

/-- From the loops of the boot loader to the end of `InitMem`: the kernel finds physical memory at
`VIRTUAL_MEMORY_BARRIER`, and nothing is mapped for user programs. The tables of the boot loader are
left alone in between. They show the free frames that `InitMem` makes into tables, and these frames
have entries in the frame table. -/
theorem physical_map {l : Labels} {rounds : Nat} {s : Fill} (place : l.pml4Table.toNat = 0x1000 * P)
    (low : P + 3 ≤ 0xA0) (room : StackRoom s.esp P)
    (zero : ∀ f, P ≤ f → f < P + 3 → ∀ i < 512, s.ram f i = 0) (turns : 32768 ≤ rounds)
    (next : Nat → U32) :
    ∃ s', fillTables rounds l next s = some s' ∧ ∀ (ram : Nat → Nat → U64) (m₁ : Memory)
      (pageCount : U64) (kernelMemory : TaskMemoryDefinition),
      (∀ f, P ≤ f → f < P + 0x43 → ∀ i < 512, s'.ram f i = ram f i) →
      initFrames fuel (dropIdentityMap (bootMemory ram frames (physOf P))) ds =
        some (m₁, pageCount) → (sizedTotal ds).toNat < 2 ^ 46 → P + 0x43 ≤ frameCount m₁ →
      EntriesInTable ds → m₁.HasFreeBelow (directTables (frameCount m₁) + 5)
        (min (shownAtBoot P) (physFramesCapacity (sizedTotal ds))) →
      (∀ f < shownAtBoot P, translate m₁ (directPage f) = some f) ∧
      ∃ m t pml4, initMem fuel (bootMemory ram frames (physOf P)) kernelMemory ds =
          some (m, t, pml4) ∧
        (∀ v : U64, v.toNat < 2 ^ 47 → translate m v = none) ∧
        ∀ a : U64, frameOf a < frameCount m₁ → frameOf a < physFramesCapacity (sizedTotal ds) →
          InMap m₁ P ds (frameOf a) →
          translate m (a + virtualMemoryBarrier) = some (frameOf a) := by
  obtain ⟨s', run, -, tables, -⟩ := Placed.bootTables ⟨room, by omega, place⟩ low zero turns next
  refine ⟨s', run, fun ram m₁ pageCount kernelMemory kept filled small inside _ enough => ?_⟩
  have enough := enough.hasFree
  have tables := tables.congr kept
  obtain ⟨m, t, pml4, n, booted, first, -, frame, above, rest⟩ := @initMem_found _ _ _ _ _ _ _
    kernelMemory tables (by omega) filled small inside enough
  obtain ⟨same, paging, total, -, marks⟩ := initFrames_spec rfl filled
  have half : m₁.totalMem.toNat < 2 ^ 47 := by
    rw [total, BitVec.toNat_add]
    omega
  have count := frameCount_lt half
  have boot : frameOf (physOf P) = P := frameOf_physOf (show P < 2 ^ 52 by omega)
  have tables' : BootTables false m₁.ram P := by
    rw [same]
    exact drop_bootTables tables boot
  have current : frameOf m₁.paging.cr3 = P := by
    rw [paging]
    exact boot
  refine ⟨fun f early => tables'.shown (by omega) current early,
    m, t, pml4, booted, fun v user => ?_, fun a inMemory _ inMap => ?_⟩
  · have page : pageNumber v < 2 ^ 35 := by
      unfold pageNumber
      omega
    rw [rest v fun f _ => by omega, if_pos page]
  · have page := @pageNumber_direct a (by unfold frameOf at inMemory; omega)
    unfold InMap at inMap
    by_cases below : frameOf a < 0x8000
    · rw [if_pos below] at inMap
      rw [rest _ fun f h => by have := h.1; omega, if_neg (by omega), page]
      by_cases last : frameOf a = kernelFrames ds
      · -- the first free frame is the one after the kernel's
        have free := inMap.2 last
        rw [findNextFreePhysical_first half free fun g lt => marks g (.inl (last ▸ lt))] at first
        have same := congrArg frameOf first
        rw [frameOf_physOf (frameOf_lt a), frameOf_physOf (frame ▸ frameOf_lt pml4)] at same
        rw [if_pos (by omega), same]
      · rw [if_neg (by omega)]
        rw [← tables'.found (by omega) below inMap.1]
        exact found_congr (page.trans (pageNumber_directPage (by omega)).symm)
    · rw [if_neg below] at inMap
      exact above _ _ ⟨by omega, by omega, inMap⟩ page

section Witness

/-- A machine with 256 MiB. The loop leaves the last descriptor out. -/
def bootMap : List E820RangeDescriptor := [⟨0, 0x10000000, 1⟩, ⟨0xFFFC0000, 0x40000, 2⟩]

theorem bootMap_enumerated : enumerated bootMap = [⟨0, 0x10000000, 1⟩] := by
  have offset : e820CurOffset bootMap = 48 := rfl
  have count : ((48 : U32) / 24 - 1).toNat = 1 := by decide
  rw [enumerated, offset, count]
  rfl

theorem bootMap_total : sizedTotal bootMap = 0x10000000 := by
  rw [sizedTotal, bootMap_enumerated, rangeTotal, rangeTotal]
  decide

theorem bootMap_capacity : physFramesCapacity (sizedTotal bootMap) = 0x10000 := by
  rw [bootMap_total]
  decide

theorem bootMap_frames : kernelFrames bootMap = 0x4081 := by
  rw [kernelFrames, bootMap_total]
  decide

theorem bootMap_entries : EntriesInTable bootMap where
  kernel := by
    rw [bootMap_frames, bootMap_capacity]
    decide
  reserved := by
    rintro f ⟨d, mem, real, -⟩
    rw [bootMap_enumerated, List.mem_singleton] at mem
    exact absurd (congrArg E820RangeDescriptor.type mem) real

/-- Its frame table. -/
def bootFrames (cr3 : U64) (ram : Nat → Nat → U64) : Memory where
  ram := (dropIdentityMap (bootMemory ram (fun _ => ⟨0, 0⟩) cr3)).ram
  physFrames f := if f < 0x4081 then ⟨0, 0b101⟩ else ⟨0, 0⟩
  totalMem := 0x20000000
  availableMem := 0x20000000
  physicalPagesUsed := 0
  virtualMemorySize := 32
  paging := ⟨cr3, cr3, cr3⟩

variable (cr3 : U64)

theorem enumerate_bootMap (doDirty : Bool) (m : Memory) : enumerateE820 0 doDirty m bootMap =
    some { m with
      totalMem := m.totalMem + 0x10000000
      availableMem := m.availableMem + 0x10000000 } := by
  rw [enumerateE820, bootMap_enumerated]
  rfl

theorem bootFrames_filled : initFrames 0 (dropIdentityMap (bootMemory ram (fun _ => ⟨0, 0⟩) cr3))
    bootMap = some (bootFrames cr3 ram, 0x4080) := by
  have pages : kernelPageCount + physFramesPages (0 + 0x10000000) = 0x4080 := by decide
  have count : ((0x4080 : U64) + 1).toNat = 0x4081 := by decide
  have twice : (0 + 0x10000000 + 0x10000000 : U64) = 0x20000000 := by decide
  rw [initFrames, enumerate_bootMap]
  simp only [Option.bind_eq_bind, Option.bind_some, enumerate_bootMap, Option.some.injEq,
    Prod.mk.injEq]
  refine ⟨?_, pages⟩
  simp only [pages, count, reserveFrames, bootFrames, dropIdentityMap, bootMemory, twice]

theorem bootFrames_count : frameCount (bootFrames cr3 ram) = 0x20000 :=
  (show (0x20000000 + 0xFFF) / 0x1000 = 0x20000 by decide)

theorem bootFrames_hasFree : (bootFrames cr3 ram).HasFreeBelow 264 0x4189 := by
  have inj : Function.Injective (· + 0x4081) := fun _ _ => Nat.add_right_cancel
  refine ⟨(Finset.range 264).image (· + 0x4081), ?_, fun f hf => ?_⟩
  · rw [Finset.card_image_of_injective _ inj, Finset.card_range]
  · obtain ⟨i, lt, rfl⟩ := Finset.mem_image.mp hf
    have lt := Finset.mem_range.mp lt
    refine ⟨by omega, by rw [bootFrames_count]; omega, ?_⟩
    have unmarked : ¬ i + 0x4081 < 0x4081 := by omega
    simp [Memory.marked, bootFrames, unmarked]

end Witness

/-- The first frame that `InitMem` adds to the map, and one that was in it before. -/
theorem physical_map_boot : ∃ s' m t pml4,
    fillTables 32768 ⟨0x61000⟩ (fun i => 0x600C0 + 5 * BitVec.ofNat 32 i) loaderRegisters =
        some s' ∧
      initMem 0 (bootMemory s'.ram (fun _ => ⟨0, 0⟩) (physOf 0x61)) noRegions bootMap =
        some (m, t, pml4) ∧
      translate m 0x100000 = none ∧
      translate m (0x100000 + virtualMemoryBarrier) = some 0x100 ∧
      translate m (0x8000000 + virtualMemoryBarrier) = some 0x8000 := by
  obtain ⟨s', filled, rest⟩ := @physical_map 0x61 0 (fun _ => ⟨0, 0⟩) bootMap ⟨0x61000⟩ 32768
    loaderRegisters rfl (by decide) loaderRegisters_room (fun _ _ _ _ _ => rfl) le_rfl
    fun i => 0x600C0 + 5 * BitVec.ofNat 32 i
  obtain ⟨-, m, t, pml4, booted, user, shown⟩ := rest s'.ram _ _ noRegions
    (fun _ _ _ _ _ => rfl) (bootFrames_filled _) (by rw [bootMap_total]; decide)
    (by rw [bootFrames_count]; decide) bootMap_entries
    (by rw [bootFrames_count, bootMap_capacity]; exact (bootFrames_hasFree _).mono (by decide))
  rw [bootFrames_count, bootMap_capacity] at shown
  refine ⟨s', m, t, pml4, filled, booted, user _ (by decide), shown 0x100000 (by decide)
    (by decide) ?_, shown 0x8000000 (by decide) (by decide) ?_⟩
  · rw [InMap, bootMap_frames, if_pos (by decide)]
    exact ⟨by decide, fun last => absurd last (by decide)⟩
  · rw [InMap, if_neg (by decide)]
    simp only [bootFrames]
    rw [if_neg (by decide)]
    decide

end ChudOS
