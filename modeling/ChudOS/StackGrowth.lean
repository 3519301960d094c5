import ChudOS.ForkRights

/-!
# Growth of a user stack

A page fault below the stack maps the pages from there up to the lowest page of the stack, up to
two of them. One that lies deeper is taken for a page of the program, and one inside the stack makes
the distance to its lowest page wrap.
-/

namespace ChudOS

open Memory

variable {k k' : Kernel} {m m' : Memory} {roots : Set Nat} {root n r pid : Nat} {page : PageDetails}
  {v : U64}

/-! ## Fresh pages -/

/-- A free frame is referenced by nobody. -/
def FreeUnreferenced (m : Memory) : Prop := ∀ f, m.Free f → (m.physFrames f).refcount = 0

theorem pageEntry_present (h : page.flags.flags.getLsbD 0 = true) :
    (pageEntry page).getLsbD 0 = true := by
  simp [pageEntry, h]

/-- A user page on the frame the scan finds. -/
theorem allocPage_fresh (hm : Forest m roots) (hroot : frameOf m.paging.pml4Physical ∈ roots)
    (unreferenced : FreeUnreferenced m) (enough : m.HasFree (n + 4))
    (fresh : page.physicalAddress = findNextFreePhysical m)
    (user : page.virtualAddress < virtualMemoryBarrier)
    (present : page.flags.flags.getLsbD 0 = true) :
    ∃ m', allocPage m page = some (m', page.virtualAddress) ∧ Forest m' roots ∧ m'.HasFree n ∧
      m'.paging = m.paging ∧ FreeUnreferenced m' ∧
      ∀ p : Page, p.1.length = 3 →
        (Present (m'.wordAt (frameOf m.paging.pml4Physical) p.1 p.2) ↔
          Present (m.wordAt (frameOf m.paging.pml4Physical) p.1 p.2) ∨
            p = pageOf page.virtualAddress) := by
  obtain ⟨free, found⟩ := findNextFreePhysical_free hm.small (enough.mono (by omega))
  rw [← fresh] at free found
  have inMemory : page.physicalAddress < m.totalMem :=
    found ▸ physOf_lt_totalMem hm.small free.1
  have accepted : allocRefused m page = false := by
    have clear : ∀ x : U8, (x &&& 0b111 != 0) = false →
        (x &&& 0b10 == 0b10 || (x &&& 0b100 == 0b100 && true)) = false := by decide
    simp only [allocRefused, user, decide_true]
    exact clear _ free.2
  obtain ⟨m₁, pt, result, ext, left, table⟩ := allocPage_spec hm hroot enough inMemory accepted
  refine ⟨_, result, setEntry_forest ext.forest hroot (pathOf_length _) table, left, ?_,
    fun f hf => ?_, fun p hp => ?_⟩
  · exact ext.layout.1.trans (countReference_layout m page).1
  · have before := countReference_free (ext.free_of_free hf)
    have same := (ext.refcount f).trans (congrArg _ (countReference_physFrames m page f))
    by_cases own : f = frameOf page.physicalAddress
    · subst own
      have marked := ext.marked (f := frameOf page.physicalAddress) (m := countReference m page) (by
        rw [Memory.marked, countReference_physFrames, if_pos ⟨user, rfl⟩,
          if_pos (unreferenced _ before)]
        exact (by decide : ((1 : U8) &&& 0b111 != 0) = true))
      exact absurd marked hf.not_marked
    · rw [if_neg fun h => own h.2] at same
      exact same.trans (unreferenced f before)
  · by_cases here : p.1 = pathOf page.virtualAddress ∧ p.2 = leafIndex page.virtualAddress
    · obtain rfl : p = pageOf page.virtualAddress := Prod.ext here.1 here.2
      have word := setEntry_word (d := leafIndex page.virtualAddress) (x := pageEntry page)
        ext.forest hroot (pathOf_length _) table
      refine iff_of_true ?_ (.inr rfl)
      exact word ▸ present_some.mpr (pageEntry_present present)
    · have walked := Narrows.of_walk
        (ext.word (countReference_forest hm) hroot (pathOf_length _).le hroot hp p.2)
      have same : (countReference m page).tables = m.tables := by
        unfold Memory.tables
        rw [countReference_ram]
      rw [setEntry_word_of_ne ext.forest hroot (pathOf_length _) table hroot hp here, walked.present,
        Memory.wordAt, same]
      refine ⟨.inl, fun h => h.resolve_right fun eq => here ?_⟩
      exact eq ▸ ⟨rfl, rfl⟩

/-! ## The loop -/

theorem growStack_memoryData (h : growStack k pid page n = some k') :
    (k'.taskManager pid).memoryData = { (k.taskManager pid).memoryData with
      stackPageCount := (k.taskManager pid).memoryData.stackPageCount + BitVec.ofNat 64 n } := by
  induction n generalizing k page with
  | zero =>
    cases h
    simp
  | succ n ih =>
    simp only [growStack, Option.bind_eq_bind, Option.bind_eq_some_iff, Prod.exists] at h
    obtain ⟨m, a, -, rest⟩ := h
    rw [ih rest]
    simp only [Kernel.setMemoryData, Kernel.setTask_self]
    rw [BitVec.add_assoc, BitVec.add_comm 1, BitVec.ofNat_add]
    rfl

/-- The loop maps the pages it visits, and no others. -/
theorem growStack_mapped (pid : Nat) (page : PageDetails) (hm : Forest k.mem roots)
    (hroot : frameOf k.mem.paging.pml4Physical ∈ roots) (unreferenced : FreeUnreferenced k.mem) (enough : k.mem.HasFree (4 * n))
    (fresh : page.physicalAddress = findNextFreePhysical k.mem)
    (user : ∀ v ∈ loopPages 0x1000 page.virtualAddress n, v < virtualMemoryBarrier)
    (present : page.flags.flags.getLsbD 0 = true) :
    ∃ k', growStack k pid page n = some k' ∧ ∀ p : Page, p.1.length = 3 →
      (Present (k'.mem.wordAt (frameOf k.mem.paging.pml4Physical) p.1 p.2) ↔
        Present (k.mem.wordAt (frameOf k.mem.paging.pml4Physical) p.1 p.2) ∨
          ∃ v ∈ loopPages 0x1000 page.virtualAddress n, p = pageOf v) := by
  induction n generalizing k page with
  | zero => exact ⟨k, rfl, fun p _ => by simp [loopPages]⟩
  | succ n ih =>
    obtain ⟨m, result, forest, left, paging, unreferenced', words⟩ := allocPage_fresh (n := 4 * n)
      hm hroot unreferenced enough fresh (user _ List.mem_cons_self) present
    have rest := @ih ({ k with mem := m }.setMemoryData pid
      { (k.taskManager pid).memoryData with
        stackPageCount := (k.taskManager pid).memoryData.stackPageCount + 1 })
      { page with
        virtualAddress := page.virtualAddress + 0x1000
        physicalAddress := findNextFreePhysical m }
    simp only [Kernel.setMemoryData_mem, paging] at rest
    obtain ⟨k', run, later⟩ := rest forest hroot unreferenced' left trivial
      (fun v hv => user v (List.mem_cons_of_mem _ hv)) present
    refine ⟨k', ?_, fun p hp => ?_⟩
    · rw [growStack, result]
      exact run
    · rw [later p hp, words p hp]
      simp [loopPages, or_assoc]

/-! ## Pages as addresses -/

theorem pageOf_congr {w : U64} (h : v.toNat / 0x1000 = w.toNat / 0x1000) : pageOf v = pageOf w := by
  have div (i : Nat) : v.toNat / 2 ^ (12 + i) = w.toNat / 2 ^ (12 + i) := by
    rw [Nat.pow_add, ← Nat.div_div_eq_div_mul, ← Nat.div_div_eq_div_mul]
    exact congrArg (· / 2 ^ i) h
  simp only [pageOf, pathOf, leafIndex, div 27, div 18, div 9, div 0]

/-- User addresses of one page. -/
theorem pageOf_inj {w : U64} (hv : v.toNat < 2 ^ 47) (hw : w.toNat < 2 ^ 47)
    (h : pageOf v = pageOf w) : v.toNat / 0x1000 = w.toNat / 0x1000 := by
  simp only [pageOf, pathOf, leafIndex, Prod.mk.injEq, List.cons.injEq, Fin.mk.injEq] at h
  omega

theorem page_aligned (v : U64) : (v &&& ~~~0xFFF).toNat % 0x1000 = 0 := by
  have mask : (~~~0xFFF : U64).toNat % 2 ^ 12 = 0 := rfl
  change (v &&& ~~~0xFFF).toNat % 2 ^ 12 = 0
  rw [BitVec.toNat_and, Nat.and_mod_two_pow, mask, Nat.and_zero]

/-- The addresses the loop visits. -/
theorem mem_loopPages {a w : U64} (room : a.toNat + 0x1000 * n < 2 ^ 64) :
    w ∈ loopPages 0x1000 a n ↔ ∃ i < n, w.toNat = a.toNat + 0x1000 * i := by
  induction n generalizing a with
  | zero => simp [loopPages]
  | succ n ih =>
    have page : (0x1000 : U64).toNat = 0x1000 := rfl
    have next : (a + 0x1000).toNat = a.toNat + 0x1000 := by
      rw [BitVec.toNat_add, page]
      omega
    rw [loopPages, List.mem_cons, ih (by omega), next]
    constructor
    · rintro (rfl | ⟨i, hi, eq⟩)
      · exact ⟨0, by omega, rfl⟩
      · exact ⟨i + 1, by omega, by omega⟩
    · rintro ⟨i, hi, eq⟩
      cases i with
      | zero => exact .inl (BitVec.eq_of_toNat_eq eq)
      | succ i => exact .inr ⟨i, by omega, by omega⟩

/-! ## The handler -/

/-- The page of a fault. -/
def faultPage (regs : InterruptRegisters) : U64 := regs.cr2 &&& ~~~0xFFF

/-- A fault that is neither fatal nor about a copy-on-write page. The handler looks the page up,
which may add page tables, and maps it. -/
theorem handlePageFault_demand {regs : InterruptRegisters} (fuel : Nat) (sep : SeparateSpaces k)
    (unreferenced : FreeUnreferenced k.mem) (enough : k.mem.HasFree (n + 3))
    (near : faultKills (k.taskManager k.curPid).memoryData regs.cr2 = false)
    (user : faultPage regs < virtualMemoryBarrier)
    (unshared : ∀ e, k.userEntry k.curPid (pageOf regs.cr2) = some e → e &&& cowBit = 0) :
    ∃ m, handlePageFault fuel k regs =
        (demandPage { k.setRegisters k.curPid regs with mem := m } k.curPid (faultPage regs)).map
          (·, regs) ∧
      Forest m (spaces k) ∧ frameOf m.paging.pml4Physical = k.root k.curPid ∧ m.HasFree n ∧
      FreeUnreferenced m ∧ ∀ p : Page, p.1.length = 3 →
        (Present (m.wordAt (k.root k.curPid) p.1 p.2) ↔ Present (k.userEntry k.curPid p)) := by
  obtain ⟨m₁, hm₁⟩ : ∃ m₁, memSetCr3 k.mem (k.taskManager k.curPid).basePML4 = m₁ := ⟨_, rfl⟩
  have rootIn := mem_spaces sep.running
  have forest₁ : Forest m₁ (spaces k) := hm₁ ▸ sep.forest.of_frames rfl rfl sep.forest.marked
  have current₁ : frameOf m₁.paging.pml4Physical = k.root k.curPid := hm₁ ▸ rfl
  have free₁ : m₁.HasFree (n + 3) := hm₁ ▸ enough
  have unreferenced₁ : FreeUnreferenced m₁ := hm₁ ▸ unreferenced
  have words₁ (p : Page) : m₁.wordAt (k.root k.curPid) p.1 p.2 = k.userEntry k.curPid p := hm₁ ▸ rfl
  obtain ⟨m, pt, walk, ext, free, table⟩ := walk_spec forest₁ (current₁ ▸ rootIn) (faultPage regs)
    (free₁.mono (Nat.add_le_add_left (Memory.missing_le _ _ _) n))
  rw [current₁] at ext table
  have words (p : Page) (hp : p.1.length = 3) : m.wordAt (k.root k.curPid) p.1 p.2 =
        k.userEntry k.curPid p ∨ k.userEntry k.curPid p = none ∧
          m.wordAt (k.root k.curPid) p.1 p.2 = some 0 :=
    words₁ p ▸ ext.word forest₁ rootIn (pathOf_length _).le rootIn hp p.2
  have entry : m.entry (pt, (leafIndex (faultPage regs)).val) &&& cowBit = 0 := by
    have page : pageOf (faultPage regs) = pageOf regs.cr2 :=
      Prod.ext (pathOf_page regs.cr2) (leafIndex_page regs.cr2)
    have word := words (pageOf (faultPage regs)) (pathOf_length _)
    rw [pageOf, Memory.wordAt_eq, table, Option.map_some, ← pageOf, page] at word
    rw [show leafIndex (faultPage regs) = leafIndex regs.cr2 from leafIndex_page _]
    obtain same | ⟨-, zero⟩ := word
    · exact unshared _ same.symm
    · have empty : m.entry (pt, (leafIndex regs.cr2).val) = 0 := Option.some.inj zero
      rw [empty]
      rfl
  refine ⟨m, ?_, ext.forest, (congrArg frameOf (congrArg Paging.pml4Physical ext.layout.1)).trans
    current₁, free, fun f hf => ?_, fun p hp => (Narrows.of_walk (words p hp)).present⟩
  · unfold handlePageFault
    dsimp only
    rw [Kernel.setRegisters_memoryData, near, if_neg Bool.false_ne_true, if_pos (by exact user)]
    simp only [Kernel.setCr3, Kernel.setRegisters_mem, Kernel.setRegisters_basePML4, hm₁]
    change (if _ then _ else _) = _
    rw [show calculatePagePhysicalEntryAddress m₁ (extractPageEntries (regs.cr2 &&& ~~~0xFFF)) = _
      from walk, if_pos (by exact entry)]
    exact Option.map_eq_bind.symm
  · rw [ext.refcount]
    exact unreferenced₁ f (ext.free_of_free hf)

/-! ## Stack regions -/

/-- A stack of at least one page, with room below it, among the user addresses. -/
structure StackRegion (d : TaskMemoryDefinition) : Prop where
  aligned : d.stackBaseVirtualAddress.toNat % 0x1000 = 0
  user : d.stackBaseVirtualAddress.toNat < 2 ^ 47
  pages : 1 ≤ d.stackPageCount.toNat
  room : (d.stackPageCount.toNat + 3) * 0x1000 ≤ d.stackBaseVirtualAddress.toNat

/-- The record after the stack has grown by `n` pages. -/
def grown (d : TaskMemoryDefinition) (n : Nat) : TaskMemoryDefinition :=
  { d with stackPageCount := d.stackPageCount + BitVec.ofNat 64 n }

/-- How often the loop runs: from a page below the stack as often as there are pages in between. -/
theorem stack_distance {d : TaskMemoryDefinition} {a : U64}
    (below : a.toNat ≤ (stackLow d).toNat) :
    ((stackLow d - a) / 0x1000).toNat = ((stackLow d).toNat - a.toNat) / 0x1000 := by
  have page : (0x1000 : U64).toNat = 0x1000 := rfl
  rw [BitVec.toNat_udiv, BitVec.toNat_sub, page]
  omega

namespace StackRegion

variable {d : TaskMemoryDefinition} (h : StackRegion d)

include h

/-- The lowest page of a stack, and of one that has grown a little. -/
theorem low_toNat (small : n ≤ 4) : (stackLow (grown d n)).toNat + (d.stackPageCount.toNat + n - 1) *
    0x1000 = d.stackBaseVirtualAddress.toNat := by
  obtain ⟨-, user, pages, room⟩ := h
  have page : (0x1000 : U64).toNat = 0x1000 := rfl
  have one : (1 : U64).toNat = 1 := rfl
  have count : (d.stackPageCount + BitVec.ofNat 64 n - 1).toNat = d.stackPageCount.toNat + n - 1 := by
    rw [BitVec.toNat_sub, BitVec.toNat_add, BitVec.toNat_ofNat, one]
    omega
  have size : ((d.stackPageCount + BitVec.ofNat 64 n - 1) * 0x1000).toNat =
      (d.stackPageCount.toNat + n - 1) * 0x1000 := by
    rw [BitVec.toNat_mul, count, page]
    omega
  have low : stackLow (grown d n) = d.stackBaseVirtualAddress -
      (d.stackPageCount + BitVec.ofNat 64 n - 1) * 0x1000 := rfl
  rw [low, BitVec.toNat_sub, size]
  omega

theorem low : (stackLow d).toNat + (d.stackPageCount.toNat - 1) * 0x1000 =
    d.stackBaseVirtualAddress.toNat := by
  have same : grown d 0 = d := by simp [grown]
  have := h.low_toNat (Nat.zero_le 4)
  rwa [same, Nat.add_zero] at this

theorem low_ge : 0x4000 ≤ (stackLow d).toNat := by
  have := h.low
  have := h.room
  have := h.pages
  omega

theorem low_aligned : (stackLow d).toNat % 0x1000 = 0 := by
  have := h.low
  have := h.aligned
  omega

theorem low_grown (small : n ≤ 4) :
    (stackLow (grown d n)).toNat + 0x1000 * n = (stackLow d).toNat := by
  have := h.low
  have := h.low_toNat small
  have := h.pages
  omega

theorem sub_low {c : U64} (hc : c.toNat ≤ 0x4000) :
    (stackLow d - c).toNat = (stackLow d).toNat - c.toNat := by
  have := h.low_ge
  rw [BitVec.toNat_sub]
  omega

/-- From a page above the lowest one the distance wraps. -/
theorem distance_wraps {a : U64} (above : (stackLow d).toNat < a.toNat)
    (inside : a.toNat ≤ d.stackBaseVirtualAddress.toNat) :
    4 < ((stackLow d - a) / 0x1000).toNat := by
  have page : (0x1000 : U64).toNat = 0x1000 := rfl
  have := h.user
  rw [BitVec.toNat_udiv, BitVec.toNat_sub, page]
  omega

end StackRegion

/-! ## Faults at the stack -/

/-- A fault inside the stack region of the current task or within `0x4000` below it, that is not about
a copy-on-write page. -/
structure StackFault (k : Kernel) (regs : InterruptRegisters) : Prop where
  near : (stackLow (k.taskManager k.curPid).memoryData).toNat ≤ (faultPage regs).toNat + 0x4000
  inside : faultPage regs ≤ (k.taskManager k.curPid).memoryData.stackBaseVirtualAddress
  unshared : ∀ e, k.userEntry k.curPid (pageOf regs.cr2) = some e → e &&& cowBit = 0

/-- From `k` to `k'` the stack of the current task has grown down to the page `a`: at most four pages
are new, each is counted as a page of the stack, and all pages of the stack are mapped. -/
structure StackGrown (k k' : Kernel) (a : U64) : Prop where
  counted : ∃ s : Finset Page, (∀ p, p ∈ s ↔ UserPath p.1 ∧
      ¬Present (k.userEntry k.curPid p) ∧ Present (k'.userEntry k.curPid p)) ∧ s.card ≤ 4 ∧
    (k'.taskManager k.curPid).memoryData.stackPageCount =
      (k.taskManager k.curPid).memoryData.stackPageCount + BitVec.ofNat 64 s.card
  pageCount : (k'.taskManager k.curPid).memoryData.pageCount =
    (k.taskManager k.curPid).memoryData.pageCount
  present : Present (k'.userEntry k.curPid (pageOf a))
  reached : stackLow (k'.taskManager k.curPid).memoryData ≤ a
  contiguous : ∀ v, stackLow (k'.taskManager k.curPid).memoryData ≤ v →
    v ≤ (k'.taskManager k.curPid).memoryData.stackBaseVirtualAddress →
    Present (k'.userEntry k.curPid (pageOf v))

/-- From `k` to `k'` nothing has been mapped, and the current task has ended. -/
structure StackRefused (k k' : Kernel) : Prop where
  unmapped : ∀ p, UserPath p.1 → Present (k'.userEntry k.curPid p) → Present (k.userEntry k.curPid p)
  ended : (k'.taskManager k.curPid).exist = false

/-- The fault lies on a page of the stack that is there. -/
def InsideStack (k : Kernel) (regs : InterruptRegisters) : Prop :=
  stackLow (k.taskManager k.curPid).memoryData ≤ faultPage regs ∧
    Present (k.userEntry k.curPid (pageOf regs.cr2))

/-- The handler returns, having grown the stack, or ended the task for a fault on a page of the stack
that is there. -/
def GrowsExactly (fuel : Nat) (k : Kernel) (regs : InterruptRegisters) : Prop :=
  ∃ k' frame, handlePageFault fuel k regs = some (k', frame) ∧
    (InsideStack k regs → StackRefused k k') ∧ (¬InsideStack k regs → StackGrown k k' (faultPage regs))

/-- The condition for it: the fault lies in one of the two pages below the stack, nothing is mapped
from there up to the stack, and everything above. -/
structure BelowStack (k : Kernel) (regs : InterruptRegisters) : Prop where
  below : faultPage regs < stackLow (k.taskManager k.curPid).memoryData
  within : (stackLow (k.taskManager k.curPid).memoryData).toNat ≤ (faultPage regs).toNat + 0x2000
  absent : ∀ v, faultPage regs ≤ v → v < stackLow (k.taskManager k.curPid).memoryData →
    ¬Present (k.userEntry k.curPid (pageOf v))
  mapped : ∀ v, stackLow (k.taskManager k.curPid).memoryData ≤ v →
    v ≤ (k.taskManager k.curPid).memoryData.stackBaseVirtualAddress →
    Present (k.userEntry k.curPid (pageOf v))

/-! ## What the handler does there -/

theorem demandPage_program {a : U64} (outside : ¬(stackLow (k.taskManager pid).memoryData - 0x2000 ≤ a ∧
      a ≤ (k.taskManager pid).memoryData.stackBaseVirtualAddress))
    (h : demandPage k pid a = some k') : (k'.taskManager pid).memoryData.pageCount =
      (k.taskManager pid).memoryData.pageCount + 1 := by
  unfold demandPage at h
  dsimp only at h
  rw [if_neg outside] at h
  simp only [Option.bind_eq_bind, Option.bind_eq_some_iff, Prod.exists] at h
  obtain ⟨m, b, -, h⟩ := h
  cases h
  simp [Kernel.setMemoryData]

theorem demandPage_stack {a : U64} (inside : stackLow (k.taskManager pid).memoryData - 0x2000 ≤ a ∧
      a ≤ (k.taskManager pid).memoryData.stackBaseVirtualAddress) :
    demandPage k pid a = growStack k pid ⟨⟨userFlags, true⟩, a, findNextFreePhysical k.mem⟩
      ((stackLow (k.taskManager pid).memoryData - a) / 0x1000).toNat := if_pos inside

section Fault

variable {fuel : Nat} {regs : InterruptRegisters} (sep : SeparateSpaces k)
  (region : StackRegion (k.taskManager k.curPid).memoryData) (fault : StackFault k regs)
  (unreferenced : FreeUnreferenced k.mem) (enough : k.mem.HasFree 11)

include region fault

theorem StackFault.survives :
    faultKills (k.taskManager k.curPid).memoryData regs.cr2 = false := by
  have low := region.sub_low (c := 0x4000) (Nat.le_refl _)
  have near := fault.near
  have page : (0x4000 : U64).toNat = 0x4000 := rfl
  have alive : ¬faultPage regs < stackLow (k.taskManager k.curPid).memoryData - 0x4000 := by
    rw [BitVec.lt_def, low, page]
    omega
  rw [faultKills, show decide (regs.cr2 &&& ~~~0xFFF < _) = false from decide_eq_false alive,
    Bool.and_false]

theorem StackFault.user : (faultPage regs).toNat < 2 ^ 47 := by
  have := fault.inside
  have := region.user
  rw [BitVec.le_def] at *
  omega

include sep unreferenced enough

/-- The handler after it has looked the page up. -/
theorem StackFault.demand (fuel : Nat) :
    ∃ k₁ : Kernel, handlePageFault fuel k regs =
        (demandPage k₁ k.curPid (faultPage regs)).map (·, regs) ∧
      (∀ t, (k₁.taskManager t).memoryData = (k.taskManager t).memoryData) ∧ SameTasks k k₁ ∧
      Forest k₁.mem (spaces k) ∧ frameOf k₁.mem.paging.pml4Physical = k.root k.curPid ∧
      k₁.mem.HasFree 8 ∧ FreeUnreferenced k₁.mem ∧ ∀ p : Page, p.1.length = 3 →
        (Present (k₁.userEntry k.curPid p) ↔ Present (k.userEntry k.curPid p)) := by
  have user : faultPage regs < virtualMemoryBarrier := by
    have := fault.user region
    rw [BitVec.lt_def]
    exact this.trans (by decide)
  obtain ⟨m, run, forest, current, free, unref, words⟩ := handlePageFault_demand (n := 8) fuel sep
    unreferenced enough (fault.survives region) user fault.unshared
  have same : SameTasks k { k.setRegisters k.curPid regs with mem := m } :=
    ⟨fun t => k.setRegisters_exist _ _ t, fun t => k.setRegisters_basePML4 _ _ t⟩
  refine ⟨_, run, fun t => k.setRegisters_memoryData _ _ t, same, forest, current, free, unref,
    fun p hp => ?_⟩
  rw [Kernel.userEntry, same.root]
  exact words p hp

/-- A deeper fault is counted as a page of the program. -/
theorem StackFault.not_deep (deep : (faultPage regs).toNat + 0x2000 <
    (stackLow (k.taskManager k.curPid).memoryData).toNat) : ¬GrowsExactly fuel k regs := by
  rintro ⟨k', frame, run, -, grows⟩
  obtain ⟨k₁, handler, data, -⟩ := fault.demand sep region unreferenced enough fuel
  rw [handler, Option.map_eq_some_iff] at run
  obtain ⟨k₂, demanded, eq⟩ := run
  cases eq
  have low := region.sub_low (c := 0x2000) (by decide)
  have page : (0x2000 : U64).toNat = 0x2000 := rfl
  have outside : ¬InsideStack k regs := by
    rintro ⟨le, -⟩
    rw [BitVec.le_def] at le
    omega
  have counted := demandPage_program (by
    rw [data]
    rintro ⟨le, -⟩
    rw [BitVec.le_def, low, page] at le
    omega) demanded
  rw [data, (grows outside).pageCount] at counted
  exact absurd counted (by simp)

/-- Inside the stack the loop runs not at all, or far too often. -/
theorem StackFault.not_inside
    (inside : stackLow (k.taskManager k.curPid).memoryData ≤ faultPage regs) :
    ¬GrowsExactly fuel k regs := by
  rintro ⟨k', frame, run, refuses, grows⟩
  obtain ⟨k₁, handler, data, same, -, -, -, -, words⟩ :=
    fault.demand sep region unreferenced enough fuel
  rw [handler, Option.map_eq_some_iff] at run
  obtain ⟨k₂, demanded, eq⟩ := run
  cases eq
  have kept := demandPage_keeps demanded
  by_cases there : Present (k.userEntry k.curPid (pageOf regs.cr2))
  · have ended := (refuses ⟨inside, there⟩).ended
    rw [kept.field Task.exist (fun _ _ => rfl), same.exist, sep.running] at ended
    cases ended
  · have grown := grows fun h => there h.2
    have low := region.sub_low (c := 0x2000) (by decide)
    have window : stackLow (k₁.taskManager k.curPid).memoryData - 0x2000 ≤ faultPage regs ∧
        faultPage regs ≤ (k₁.taskManager k.curPid).memoryData.stackBaseVirtualAddress := by
      rw [data, BitVec.le_def, low]
      exact ⟨(Nat.sub_le _ _).trans inside, fault.inside⟩
    rw [demandPage_stack window, data] at demanded
    obtain eq | above := Nat.eq_or_lt_of_le inside
    · rw [stack_distance eq.ge, eq, Nat.sub_self, Nat.zero_div, growStack] at demanded
      cases demanded
      have page : pageOf (faultPage regs) = pageOf regs.cr2 :=
        Prod.ext (pathOf_page regs.cr2) (leafIndex_page regs.cr2)
      exact there ((words _ (pathOf_length _)).mp (page ▸ grown.present))
    · have many := region.distance_wraps above fault.inside
      have count := congrArg TaskMemoryDefinition.stackPageCount (growStack_memoryData demanded)
      obtain ⟨s, -, few, counted⟩ := grown.counted
      rw [counted, data] at count
      have := congrArg BitVec.toNat ((BitVec.add_right_inj _).mp count)
      rw [BitVec.toNat_ofNat, BitVec.toNat_ofNat] at this
      have := BitVec.isLt ((stackLow (k.taskManager k.curPid).memoryData - faultPage regs) / 0x1000)
      omega

variable (fuel) in
/-- Just below the stack the loop maps the pages up to it. -/
theorem StackFault.grows (below : faultPage regs < stackLow (k.taskManager k.curPid).memoryData)
    (within : (stackLow (k.taskManager k.curPid).memoryData).toNat ≤
      (faultPage regs).toNat + 0x2000) :
    ∃ k' n, n ≤ 2 ∧ (faultPage regs).toNat + 0x1000 * n =
        (stackLow (k.taskManager k.curPid).memoryData).toNat ∧
      handlePageFault fuel k regs = some (k', regs) ∧
      (k'.taskManager k.curPid).memoryData = grown (k.taskManager k.curPid).memoryData n ∧
      ∀ p : Page, p.1.length = 3 → (Present (k'.userEntry k.curPid p) ↔
        Present (k.userEntry k.curPid p) ∨ ∃ v ∈ loopPages 0x1000 (faultPage regs) n, p = pageOf v) := by
  obtain ⟨k₁, handler, data, same, forest, current, free, unref, words⟩ :=
    fault.demand sep region unreferenced enough fuel
  have aligned := page_aligned regs.cr2
  have aligned' := region.low_aligned
  have user := region.low
  have top := region.user
  have low := region.sub_low (c := 0x2000) (by decide)
  have page : (0x2000 : U64).toNat = 0x2000 := rfl
  rw [BitVec.lt_def] at below
  change (faultPage regs).toNat % 0x1000 = 0 at aligned
  have window : stackLow (k₁.taskManager k.curPid).memoryData - 0x2000 ≤ faultPage regs ∧
      faultPage regs ≤ (k₁.taskManager k.curPid).memoryData.stackBaseVirtualAddress := by
    rw [data, BitVec.le_def, low, page]
    exact ⟨by omega, fault.inside⟩
  obtain ⟨n, distance⟩ : ∃ n, ((stackLow (k.taskManager k.curPid).memoryData).toNat -
      (faultPage regs).toNat) / 0x1000 = n := ⟨_, rfl⟩
  have pages : ∀ v ∈ loopPages 0x1000 (faultPage regs) n, v < virtualMemoryBarrier := by
    intro v hv
    obtain ⟨i, hi, eq⟩ := (mem_loopPages (by omega)).mp hv
    have barrier : virtualMemoryBarrier.toNat = 0xffff800000000000 := rfl
    rw [BitVec.lt_def, barrier]
    omega
  obtain ⟨k', run, mapped⟩ := growStack_mapped k.curPid
    ⟨⟨userFlags, true⟩, faultPage regs, findNextFreePhysical k₁.mem⟩ forest
    (current ▸ mem_spaces sep.running) unref (free.mono (by omega)) rfl pages
    (by decide : userFlags.getLsbD 0 = true)
  have loop : demandPage k₁ k.curPid (faultPage regs) = some k' := by
    rw [demandPage_stack window, data, stack_distance below.le, distance, run]
  have kept : k'.root k.curPid = k.root k.curPid := by
    rw [Kernel.root, (demandPage_keeps loop).field Task.basePML4 fun _ _ => rfl, same.basePML4]
    rfl
  refine ⟨k', n, by omega, by omega, by rw [handler, loop]; rfl, ?_, fun p hp => ?_⟩
  · rw [growStack_memoryData run, data]
    rfl
  · rw [current] at mapped
    rw [Kernel.userEntry, kept, mapped p hp, ← words p hp, Kernel.userEntry, same.root]

end Fault

/-! ## Exactly when the stack grows -/

section Grown

variable {regs : InterruptRegisters} (region : StackRegion (k.taskManager k.curPid).memoryData)
  (few : n ≤ 2) (meets : (faultPage regs).toNat + 0x1000 * n =
    (stackLow (k.taskManager k.curPid).memoryData).toNat)
  (data : (k'.taskManager k.curPid).memoryData = grown (k.taskManager k.curPid).memoryData n)
  (words : ∀ p : Page, p.1.length = 3 → (Present (k'.userEntry k.curPid p) ↔
    Present (k.userEntry k.curPid p) ∨ ∃ v ∈ loopPages 0x1000 (faultPage regs) n, p = pageOf v))

include region meets

/-- The pages the loop visits are those between the fault and the stack. -/
theorem visited {v : U64} (hv : faultPage regs ≤ v)
    (below : v < stackLow (k.taskManager k.curPid).memoryData) :
    ∃ w ∈ loopPages 0x1000 (faultPage regs) n, pageOf v = pageOf w := by
  have top := region.low
  have user := region.user
  have aligned : (faultPage regs).toNat % 0x1000 = 0 := page_aligned regs.cr2
  rw [BitVec.le_def] at hv
  rw [BitVec.lt_def] at below
  have base : (v &&& ~~~0xFFF).toNat / 2 ^ 12 = v.toNat / 2 ^ 12 := page_toNat v
  have start : (v &&& ~~~0xFFF).toNat % 0x1000 = 0 := page_aligned v
  refine ⟨v &&& ~~~0xFFF, (mem_loopPages (by omega)).mpr
    ⟨((v &&& ~~~0xFFF).toNat - (faultPage regs).toNat) / 0x1000, by omega, by omega⟩,
    pageOf_congr base.symm⟩

theorem visited_below {w : U64} (hw : w ∈ loopPages 0x1000 (faultPage regs) n) :
    faultPage regs ≤ w ∧ w < stackLow (k.taskManager k.curPid).memoryData ∧ w.toNat < 2 ^ 47 := by
  have top := region.low
  have user := region.user
  obtain ⟨i, hi, eq⟩ := (mem_loopPages (by omega)).mp hw
  rw [BitVec.le_def, BitVec.lt_def]
  omega

/-- A page of the stack is not visited. -/
theorem not_visited {v w : U64} (hv : stackLow (k.taskManager k.curPid).memoryData ≤ v)
    (inside : v ≤ (k.taskManager k.curPid).memoryData.stackBaseVirtualAddress)
    (hw : w ∈ loopPages 0x1000 (faultPage regs) n) : pageOf v ≠ pageOf w := by
  intro same
  obtain ⟨-, below, small⟩ := visited_below region meets hw
  have user := region.user
  have aligned := region.low_aligned
  rw [BitVec.le_def] at hv inside
  rw [BitVec.lt_def] at below
  have := pageOf_inj (by omega) small same
  omega

include few

/-- The pages the loop visits are different ones. -/
theorem visited_card : ((loopPages 0x1000 (faultPage regs) n).map pageOf).toFinset.card = n := by
  have top := region.low
  have user := region.user
  have page : (0x1000 : U64).toNat = 0x1000 := rfl
  match n, few with
  | 0, _ => rfl
  | 1, _ => rfl
  | 2, _ =>
    have next : (faultPage regs + 0x1000).toNat = (faultPage regs).toNat + 0x1000 := by
      rw [BitVec.toNat_add, page]
      omega
    have distinct : pageOf (faultPage regs) ≠ pageOf (faultPage regs + 0x1000) := by
      intro same
      have := pageOf_inj (by omega) (by omega) same
      omega
    have nodup : ((loopPages 0x1000 (faultPage regs) 2).map pageOf).Nodup := by
      simpa [loopPages] using distinct
    exact List.toFinset_card_of_nodup nodup

include data words

theorem stackGrown_absent (grows : StackGrown k k' (faultPage regs)) {v : U64}
    (hv : faultPage regs ≤ v) (below : v < stackLow (k.taskManager k.curPid).memoryData) :
    ¬Present (k.userEntry k.curPid (pageOf v)) := by
  obtain ⟨s, new, small, counted⟩ := grows.counted
  -- there are as many new pages as the loop has visited, so each of these is new
  have count : s.card = n := by
    rw [data] at counted
    have := congrArg BitVec.toNat ((BitVec.add_right_inj _).mp counted)
    rw [BitVec.toNat_ofNat, BitVec.toNat_ofNat] at this
    omega
  have within : s ⊆ ((loopPages 0x1000 (faultPage regs) n).map pageOf).toFinset := by
    intro p hp
    obtain ⟨user, absent, present⟩ := (new p).mp hp
    obtain ⟨w, hw, rfl⟩ := ((words p user.1).mp present).resolve_left absent
    exact List.mem_toFinset.mpr (List.mem_map_of_mem hw)
  have all : s = ((loopPages 0x1000 (faultPage regs) n).map pageOf).toFinset := by
    apply Finset.eq_of_subset_of_card_le within
    rw [visited_card region few meets, count]
  obtain ⟨w, hw, same⟩ := visited region meets hv below
  rw [same]
  refine ((new (pageOf w)).mp ?_).2.1
  rw [all]
  exact List.mem_toFinset.mpr (List.mem_map_of_mem hw)

theorem stackGrown_mapped (grows : StackGrown k k' (faultPage regs)) {v : U64}
    (hv : stackLow (k.taskManager k.curPid).memoryData ≤ v)
    (inside : v ≤ (k.taskManager k.curPid).memoryData.stackBaseVirtualAddress) :
    Present (k.userEntry k.curPid (pageOf v)) := by
  have low := grows.reached
  rw [BitVec.le_def] at low
  have above : stackLow (k'.taskManager k.curPid).memoryData ≤ v := by
    rw [BitVec.le_def] at hv ⊢
    omega
  have present := grows.contiguous v above (by rw [data]; exact inside)
  refine ((words _ (pathOf_length v)).mp present).resolve_right ?_
  rintro ⟨w, hw, same⟩
  exact not_visited region meets hv inside hw same

theorem stackGrown_of_absent
    (absent : ∀ v, faultPage regs ≤ v → v < stackLow (k.taskManager k.curPid).memoryData →
      ¬Present (k.userEntry k.curPid (pageOf v)))
    (mapped : ∀ v, stackLow (k.taskManager k.curPid).memoryData ≤ v →
      v ≤ (k.taskManager k.curPid).memoryData.stackBaseVirtualAddress →
      Present (k.userEntry k.curPid (pageOf v))) :
    StackGrown k k' (faultPage regs) := by
  have low := region.low_grown (show n ≤ 4 by omega)
  have start : stackLow (k'.taskManager k.curPid).memoryData = faultPage regs := by
    rw [data]
    exact BitVec.eq_of_toNat_eq (by omega)
  have top := region.low
  have inStack : faultPage regs ≤ (k.taskManager k.curPid).memoryData.stackBaseVirtualAddress := by
    rw [BitVec.le_def]
    omega
  have present {v : U64} (hv : faultPage regs ≤ v)
      (inside : v ≤ (k.taskManager k.curPid).memoryData.stackBaseVirtualAddress) :
      Present (k'.userEntry k.curPid (pageOf v)) := by
    rw [words _ (pathOf_length v)]
    by_cases below : v < stackLow (k.taskManager k.curPid).memoryData
    · exact .inr (visited region meets hv below)
    · exact .inl (mapped v (BitVec.not_lt.mp below) inside)
  have card := visited_card region few meets
  refine ⟨⟨((loopPages 0x1000 (faultPage regs) n).map pageOf).toFinset, fun p => ?_, by omega, ?_⟩,
    ?_, present (Nat.le_refl _) inStack, Nat.le_of_eq (congrArg BitVec.toNat start),
    fun v hv inside => ?_⟩
  · rw [List.mem_toFinset, List.mem_map]
    constructor
    · rintro ⟨w, hw, rfl⟩
      obtain ⟨above, below, user⟩ := visited_below region meets hw
      exact ⟨userPath_of_lt user, absent w above below,
        (words _ (pathOf_length w)).mpr (.inr ⟨w, hw, rfl⟩)⟩
    · rintro ⟨user, gone, there⟩
      obtain ⟨w, hw, rfl⟩ := ((words p user.1).mp there).resolve_left gone
      exact ⟨w, hw, rfl⟩
  · rw [card, data]
    rfl
  · rw [data]
    rfl
  · rw [start] at hv
    rw [data] at inside
    exact present hv inside

end Grown

/-- A fault at the stack is handled as it should be exactly when it lies in the two pages below it. -/
theorem stack_growth_iff {fuel : Nat} {regs : InterruptRegisters} (sep : SeparateSpaces k)
    (region : StackRegion (k.taskManager k.curPid).memoryData) (fault : StackFault k regs)
    (unreferenced : FreeUnreferenced k.mem) (enough : k.mem.HasFree 11) :
    GrowsExactly fuel k regs ↔ BelowStack k regs := by
  constructor
  · intro exactly
    have within : (stackLow (k.taskManager k.curPid).memoryData).toNat ≤
        (faultPage regs).toNat + 0x2000 := by
      by_contra deep
      exact fault.not_deep sep region unreferenced enough (Nat.not_le.mp deep) exactly
    have below : faultPage regs < stackLow (k.taskManager k.curPid).memoryData := by
      by_contra inside
      exact fault.not_inside sep region unreferenced enough (BitVec.not_lt.mp inside) exactly
    obtain ⟨k', n, few, meets, run, data, words⟩ :=
      fault.grows fuel sep region unreferenced enough below within
    obtain ⟨k'', frame, run', -, grows⟩ := exactly
    obtain rfl := congrArg Prod.fst (Option.some.inj (run.symm.trans run'))
    have grown := grows fun inside => BitVec.not_lt.mpr inside.1 below
    exact ⟨below, within, fun v => stackGrown_absent region few meets data words grown,
      fun v => stackGrown_mapped region few meets data words grown⟩
  · rintro ⟨below, within, absent, mapped⟩
    obtain ⟨k', n, few, meets, run, data, words⟩ :=
      fault.grows fuel sep region unreferenced enough below within
    refine ⟨k', regs, run, fun inside => ?_, fun _ => ?_⟩
    · exact absurd below (BitVec.not_lt.mpr inside.1)
    · exact stackGrown_of_absent region few meets data words absent mapped

/-! ## The program with one page of stack -/

/-- A store at `a`. -/
def stackStore (a : U64) : InterruptRegisters :=
  { zeroRegisters with cs := 0x1B, rip := 0x400014, cr2 := a, errorCode := 6 }

theorem pagesKernel_region : StackRegion ((pagesKernel codePage).taskManager 1).memoryData :=
  ⟨by decide +kernel, by decide +kernel, by decide +kernel, by decide +kernel⟩

theorem pagesKernel_enough : (pagesKernel codePage).mem.HasFree 11 := by
  have free : ∀ f ∈ (Finset.range 64).filter (20 ≤ ·), f < frameCount (pagesKernel codePage).mem ∧
      (pagesKernel codePage).mem.marked f = false := by decide +kernel
  exact ⟨(Finset.range 64).filter (20 ≤ ·), by decide +kernel, free⟩

theorem pagesKernel_unreferenced : FreeUnreferenced (pagesKernel codePage).mem := by
  intro f hf
  by_contra referenced
  have used : f = 9 ∨ f = 12 := by
    by_contra other
    refine referenced ?_
    change (if f = 9 ∨ f = 12 then (⟨1, 1⟩ : PhysicalFrame)
      else if f < 13 then ⟨0, 0b101⟩ else ⟨0, 0⟩).refcount = 0
    rw [if_neg other]
    split_ifs <;> rfl
  obtain rfl | rfl := used <;> exact absurd hf.2 (by decide +kernel)

theorem pagesKernel_fault {a : U64} {e : U64}
    (near : stackBase.toNat ≤ (faultPage (stackStore a)).toNat + 0x4000)
    (inside : faultPage (stackStore a) ≤ stackBase)
    (entry : (pagesKernel codePage).userEntry 1 (pageOf a) = some e) (unshared : e &&& cowBit = 0) :
    StackFault (pagesKernel codePage) (stackStore a) := by
  have low : stackLow ((pagesKernel codePage).taskManager 1).memoryData = stackBase := by
    decide +kernel
  refine ⟨(congrArg BitVec.toNat low).trans_le near, inside, fun e' he => ?_⟩
  obtain rfl := Option.some.inj (entry.symm.trans he)
  exact unshared

theorem stack_growth_one_page :
    GrowsExactly 1 (pagesKernel codePage) (stackStore (stackBase - 0xFF8)) := by
  have low : stackLow ((pagesKernel codePage).taskManager 1).memoryData = stackBase := by
    decide +kernel
  have empty : (pagesKernel codePage).userEntry 1 (pageOf (stackBase - 0xFF8)) = some 0 := by
    decide +kernel
  have top : (pagesKernel codePage).userEntry 1 (pageOf stackBase) = some 0xC007 := by
    decide +kernel
  have fault := pagesKernel_fault (a := stackBase - 0xFF8) (by decide) (by decide) empty rfl
  refine (stack_growth_iff (pagesKernel_separate codePage) pagesKernel_region fault
    pagesKernel_unreferenced pagesKernel_enough).mpr ⟨?_, ?_, fun v above below => ?_,
      fun v above inside => ?_⟩
  · exact low ▸ (by decide)
  · exact (congrArg BitVec.toNat low).trans_le (by decide)
  · change stackLow ((pagesKernel codePage).taskManager 1).memoryData > v at below
    rw [low] at below
    have start : (faultPage (stackStore (stackBase - 0xFF8))).toNat = 0x7ffef000 := by decide
    have base : stackBase.toNat = 0x7fff0000 := by decide
    have here : (stackBase - 0xFF8).toNat = 0x7ffef008 := by decide
    have same : pageOf v = pageOf (stackBase - 0xFF8) := by
      apply pageOf_congr
      rw [BitVec.le_def, start] at above
      rw [gt_iff_lt, BitVec.lt_def, base] at below
      omega
    change ¬Present ((pagesKernel codePage).userEntry 1 (pageOf v))
    rw [same, empty]
    simp
  · change stackLow ((pagesKernel codePage).taskManager 1).memoryData ≤ v at above
    rw [low] at above
    obtain rfl : v = stackBase :=
      BitVec.eq_of_toNat_eq (Nat.le_antisymm inside above)
    change Present ((pagesKernel codePage).userEntry 1 (pageOf stackBase))
    rw [top]
    exact present_some.mpr (by decide)

/-- A fault on the page of the stack that is there is left to recur, and one three pages below it is
counted as a page of the program. -/
theorem stack_growth_missed :
    (StackFault (pagesKernel codePage) (stackStore stackBase) ∧
      ¬GrowsExactly 1 (pagesKernel codePage) (stackStore stackBase)) ∧
    StackFault (pagesKernel codePage) (stackStore (stackBase - 0x3000)) ∧
      ¬GrowsExactly 1 (pagesKernel codePage) (stackStore (stackBase - 0x3000)) := by
  have low : stackLow ((pagesKernel codePage).taskManager 1).memoryData = stackBase := by
    decide +kernel
  have sep := pagesKernel_separate codePage
  have top := pagesKernel_fault (a := stackBase) (e := 0xC007) (by decide) (by decide)
    (by decide +kernel) rfl
  have deep := pagesKernel_fault (a := stackBase - 0x3000) (e := 0) (by decide) (by decide)
    (by decide +kernel) rfl
  refine ⟨⟨top, ?_⟩, deep, ?_⟩
  · refine top.not_inside sep pagesKernel_region pagesKernel_unreferenced pagesKernel_enough ?_
    exact low ▸ (by decide)
  · refine deep.not_deep sep pagesKernel_region pagesKernel_unreferenced pagesKernel_enough ?_
    exact lt_of_lt_of_eq (by decide) (congrArg BitVec.toNat low).symm

end ChudOS
