import ChudOS.InterruptOutcomes
import ChudOS.LowLevel.PageRights

/-!
# What `fork` does to the address spaces

The child gets a new address space and, page for page, the parent's frames; the parent's entries
lose the right to write. `Forked` sums it up.

## Main definitions

* `SeparateSpaces` — every task has an address space of its own.
* `ForkReady` — a slot, frames and kernel addresses are left for a child.
* `ForkStages` — the kernel before the copy loops, after them and at the end of the call.
-/

namespace ChudOS

open Memory

variable {k k' : Kernel} {m m' m₀ : Memory} {roots : Set Nat} {regs : InterruptRegisters}
  {parent child n : Nat} {v a : U64}

/-! ## Address spaces of tasks -/

/-- The frame of the PML4 of a task. -/
def Kernel.root (k : Kernel) (t : Nat) : Nat := frameOf (k.taskManager t).basePML4

/-- The PML4s of the tasks that exist. -/
def spaces (k : Kernel) : Set Nat := {r | ∃ t, (k.taskManager t).exist = true ∧ k.root t = r}

/-- The page tables are sound, and no two tasks share them. -/
structure SeparateSpaces (k : Kernel) : Prop where
  forest : Forest k.mem (spaces k)
  own : ∀ s t, (k.taskManager s).exist = true → (k.taskManager t).exist = true →
    k.root s = k.root t → s = t
  idle : (k.taskManager 0).exist = true
  running : (k.taskManager k.curPid).exist = true

theorem mem_spaces {t : Nat} (h : (k.taskManager t).exist = true) : k.root t ∈ spaces k :=
  ⟨t, h, rfl⟩

/-- `k'` has the tasks of `k`, each in its address space. -/
structure SameTasks (k k' : Kernel) : Prop where
  exist : ∀ t, (k'.taskManager t).exist = (k.taskManager t).exist
  basePML4 : ∀ t, (k'.taskManager t).basePML4 = (k.taskManager t).basePML4

namespace SameTasks

theorem root (h : SameTasks k k') (t : Nat) : k'.root t = k.root t := by
  rw [Kernel.root, h.basePML4]
  rfl

theorem spaces (h : SameTasks k k') : spaces k' = spaces k := by
  ext r
  simp only [ChudOS.spaces, Set.mem_ofPred_eq, h.exist, h.root]

theorem separate (h : SameTasks k k') (sep : SeparateSpaces k) (forest : Forest k'.mem (ChudOS.spaces k))
    (running : (k'.taskManager k'.curPid).exist = true) : SeparateSpaces k' where
  forest := h.spaces ▸ forest
  own s t hs ht same := by
    rw [h.root, h.root] at same
    exact sep.own s t (h.exist s ▸ hs) (h.exist t ▸ ht) same
  idle := (h.exist 0).trans sep.idle
  running := running

end SameTasks

/-! ## Pages for the kernel -/

/-- The next `n` pages that `malloc` maps for the task lie above the barrier. -/
def HeapRoom (t : TaskMemoryDefinition) (n : Nat) : Prop :=
  ∀ j < n, virtualMemoryBarrier ≤
    nextPageAddress { t with pageCount := t.pageCount + BitVec.ofNat 64 j }

theorem HeapRoom.first {t : TaskMemoryDefinition} (h : HeapRoom t (n + 1)) :
    virtualMemoryBarrier ≤ nextPageAddress t := by
  have first := h 0 (by omega)
  simpa using first

theorem HeapRoom.next {t : TaskMemoryDefinition} (h : HeapRoom t (n + 1)) :
    HeapRoom { t with pageCount := t.pageCount + 1 } n := by
  intro j hj
  have later := h (j + 1) (by omega)
  have same : t.pageCount + BitVec.ofNat 64 (j + 1) = t.pageCount + 1 + BitVec.ofNat 64 j := by
    apply BitVec.eq_of_toNat_eq
    have one : (1 : U64).toNat = 1 := rfl
    simp only [BitVec.toNat_add, BitVec.toNat_ofNat, one]
    omega
  rwa [same] at later

theorem kernelMalloc_keepsUser (frames : Nat) (hm : Forest k.mem roots)
    (hroot : frameOf k.mem.paging.pml4Physical ∈ roots) (room : HeapRoom k.kernelTask (n + 1))
    (enough : k.mem.HasFree (frames + 5)) (h : kernelMalloc k = some (k', a)) :
    KeepsUser roots k.mem k'.mem ∧ HeapRoom k'.kernelTask n ∧ k'.mem.HasFree frames := by
  obtain ⟨f, m', -, result, page, free, -⟩ := malloc_kernelPage hm hroot room.first
    enough.spare
  unfold kernelMalloc at h
  rw [result] at h
  cases h
  refine ⟨page.keeps, ?_, free⟩
  simp only [Kernel.kernelTask, Kernel.setMemoryData, Kernel.setTask_self]
  exact room.next

theorem mallocKernelStack_keepsUser (frames : Nat) (hm : Forest k.mem roots)
    (hroot : frameOf k.mem.paging.pml4Physical ∈ roots) (room : HeapRoom k.kernelTask 5)
    (enough : k.mem.HasFree (frames + 25)) (h : mallocKernelStack k = some (k', a)) :
    KeepsUser roots k.mem k'.mem := by
  simp only [mallocKernelStack, Option.bind_eq_bind, Option.bind_eq_some_iff, Prod.exists] at h
  obtain ⟨k₁, _, h₁, k₂, _, h₂, k₃, _, h₃, k₄, _, h₄, h₅⟩ := h
  have current {k k' : Kernel} (keeps : KeepsUser roots k.mem k'.mem)
      (hroot : frameOf k.mem.paging.pml4Physical ∈ roots) :
      frameOf k'.mem.paging.pml4Physical ∈ roots := by rwa [keeps.layout.1]
  obtain ⟨keep₁, room₁, free₁⟩ :=
    kernelMalloc_keepsUser (frames + 20) hm hroot room enough h₁
  have root₁ := current keep₁ hroot
  obtain ⟨keep₂, room₂, free₂⟩ :=
    kernelMalloc_keepsUser (frames + 15) keep₁.forest root₁ room₁ free₁ h₂
  have root₂ := current keep₂ root₁
  obtain ⟨keep₃, room₃, free₃⟩ :=
    kernelMalloc_keepsUser (frames + 10) keep₂.forest root₂ room₂ free₂ h₃
  have root₃ := current keep₃ root₂
  obtain ⟨keep₄, room₄, free₄⟩ :=
    kernelMalloc_keepsUser (frames + 5) keep₃.forest root₃ room₃ free₃ h₄
  have root₄ := current keep₄ root₃
  obtain ⟨keep₅, -, -⟩ :=
    kernelMalloc_keepsUser frames keep₄.forest root₄ room₄ free₄ h₅
  exact (((keep₁.trans keep₂).trans keep₃).trans keep₄).trans keep₅

/-! ## The copy loops -/

/-- The addresses a copy loop goes through. -/
def loopPages (step v : U64) : Nat → List U64
  | 0 => []
  | n + 1 => v :: loopPages step (v + step) n

/-- The pages `fork` shares, the code region upwards and the stack region downwards. -/
def sharedPages (d : TaskMemoryDefinition) : List U64 :=
  loopPages 0x1000 d.baseVirtualAddress d.pageCount.toNat ++
    loopPages (-0x1000) d.stackBaseVirtualAddress d.stackPageCount.toNat

/-- In the address space of the parent the page can be executed, if it is mapped. -/
def MappedExecutable (m : Memory) (root : Nat) (v : U64) : Prop :=
  Present (m.wordAt root (pathOf v) (leafIndex v)) →
    Executable (m.wordAt root (pathOf v) (leafIndex v))

/-- Between the pages of a copy loop that started at `m₀`. -/
structure Sharing (roots : Set Nat) (parent child : Nat) (m₀ m : Memory) (n : Nat) : Prop where
  forest : Forest m roots
  free : m.HasFree n
  narrow : RightsNarrow (roots \ {child}) m₀ m
  inherits : Inherits m parent child

theorem shared_bits (e : U64) :
    ((e ||| cowBit) &&& ~~~2).getLsbD 0 = e.getLsbD 0 ∧
      ((e ||| cowBit) &&& ~~~2).getLsbD 1 = false ∧
      ((e ||| cowBit) &&& ~~~2).getLsbD 63 = e.getLsbD 63 := by
  simp [cowBit]

/-- The parent's entry loses the right to write. -/
theorem shared_narrows (e : U64) : Narrows (some e) (some ((e ||| cowBit) &&& ~~~2)) := by
  obtain ⟨present, writable, executable⟩ := shared_bits e
  apply Narrows.of_bits present _ executable
  rw [writable]
  exact fun h => absurd h Bool.false_ne_true

/-- The child's entry: that of the parent, but executable. -/
theorem sharedPage_bits (e : U64) :
    (pageEntry (sharedPage v e)).getLsbD 0 = e.getLsbD 0 ∧
      (pageEntry (sharedPage v e)).getLsbD 1 = e.getLsbD 1 ∧
      (pageEntry (sharedPage v e)).getLsbD 63 = false := by
  simp [pageEntry, sharedPage, pteAddr]

/-- The parent's side of a shared page. -/
theorem shareEntry_rights (hm : Forest m roots) (hroot : frameOf m.paging.pml4Physical ∈ roots)
    (enough : m.HasFree (n + 3)) (v : U64) :
    ∃ m₁ e, shareEntry m v = (m₁, e) ∧ Forest m₁ roots ∧ m₁.HasFree n ∧ RightsNarrow roots m m₁ ∧
      m₁.wordAt (frameOf m.paging.pml4Physical) (pathOf v) (leafIndex v) = some e ∧
      e.getLsbD 1 = false := by
  obtain ⟨m₁, pt, walk, keeps, free, table⟩ := walk_rights hm hroot enough v
  obtain ⟨old, hold⟩ : ∃ e, m₁.tables pt (leafIndex v) = e := ⟨_, rfl⟩
  have entry : m₁.entry (pt, (leafIndex v).val) = old := hold
  refine ⟨m₁.setEntry (pt, (leafIndex v).val) ((old ||| cowBit) &&& ~~~2),
    (old ||| cowBit) &&& ~~~2, ?_, ?_, free, ?_, ?_, (shared_bits old).2.1⟩
  · unfold shareEntry
    rw [walk]
    dsimp only
    rw [entry]
    simp [Memory.entry, Memory.setEntry]
  · exact setEntry_forest keeps.forest hroot (pathOf_length v) table
  · apply (RightsNarrow.of_keepsUser keeps).trans
    apply setEntry_narrows keeps.forest hroot table
    rw [hold]
    exact shared_narrows old
  · exact setEntry_word keeps.forest hroot (pathOf_length v) table

section Loop

variable {cur slot frames : Nat} (hparent : k.root cur = parent) (hchild : k.root slot = child)
  (parentIn : parent ∈ roots) (childIn : child ∈ roots) (apart : parent ≠ child)

include hparent hchild parentIn childIn apart

/-- One page is shared. -/
theorem forkPage_sharing (s : Sharing roots parent child m₀ k.mem (n + 7))
    (executable : MappedExecutable m₀ parent v) (h : forkPage k cur slot v = some k') :
    Sharing roots parent child m₀ k'.mem n := by
  subst hparent hchild
  simp only [forkPage, Option.bind_eq_bind, Option.bind_eq_some_iff, Prod.exists] at h
  obtain ⟨m', b, alloc, h⟩ := h
  cases h
  obtain ⟨m₁, e, shared, forest₁, free₁, narrow₁, word₁, locked⟩ := shareEntry_rights
    (n := n + 4) (m := (k.enter cur).mem) (s.forest.of_frames rfl rfl s.forest.marked) parentIn
    s.free v
  rw [shared] at alloc
  have entered : Forest (Kernel.enter { k.enter cur with mem := m₁ } slot).mem roots :=
    forest₁.of_frames rfl rfl forest₁.marked
  obtain ⟨forest, free, others, own⟩ := allocPage_rights (n := n) entered childIn free₁ alloc
  change RightsNarrow (roots \ {k.root slot}) m₁ m' at others
  have narrow : RightsNarrow (roots \ {k.root slot}) m₀ m' :=
    (s.narrow.trans (RightsNarrow.mono narrow₁ Set.sdiff_subset)).trans others
  refine ⟨forest, free, narrow, ?_⟩
  intro p hp j present
  have source := others (k.root cur) ⟨parentIn, apart⟩
  obtain kept | ⟨rfl, rfl, new⟩ := own p hp j
  · change Narrows (m₁.wordAt (k.root slot) p j) (m'.wordAt (k.root slot) p j) at kept
    obtain ⟨unwritable, runs, runs₁⟩ := s.inherits.narrow narrow₁ parentIn childIn p hp j
      (kept.present.mp present)
    exact ⟨unwritable ∘ kept.writable, kept.executable.mpr runs, (source p hp j).executable.mpr runs₁⟩
  · change m'.wordAt (k.root slot) (pathOf v) (leafIndex v) = some _ at new
    change Present (m'.wordAt (k.root slot) (pathOf v) (leafIndex v)) at present
    change ¬Writable (m'.wordAt (k.root slot) (pathOf v) (leafIndex v)) ∧
      Executable (m'.wordAt (k.root slot) (pathOf v) (leafIndex v)) ∧
      Executable (m'.wordAt (k.root cur) (pathOf v) (leafIndex v))
    obtain ⟨bit₀, bit₁, bit₆₃⟩ := sharedPage_bits (v := v) e
    rw [new] at present ⊢
    have mapped : e.getLsbD 0 = true := bit₀ ▸ present_some.mp present
    have there : Present (m'.wordAt (k.root cur) (pathOf v) (leafIndex v)) := by
      apply (source (pathOf v) hp (leafIndex v)).present.mpr
      change m₁.wordAt (k.root cur) (pathOf v) (leafIndex v) = some e at word₁
      rw [word₁]
      exact present_some.mpr mapped
    have started := narrow (k.root cur) ⟨parentIn, apart⟩ (pathOf v) hp (leafIndex v)
    refine ⟨?_, executable_some.mpr ⟨bit₀.trans mapped, bit₆₃⟩,
      started.executable.mpr (executable (started.present.mp there))⟩
    rw [writable_some, bit₁, locked]
    exact fun h => Bool.false_ne_true h.2

theorem forkPages_sharing {step : U64} (s : Sharing roots parent child m₀ k.mem (7 * n + frames))
    (executable : ∀ v ∈ loopPages step a n, MappedExecutable m₀ parent v)
    (h : forkPages k cur slot step a n = some k') :
    Sharing roots parent child m₀ k'.mem frames := by
  induction n generalizing k a with
  | zero =>
    cases h
    rwa [Nat.mul_zero, Nat.zero_add] at s
  | succ n ih =>
    simp only [forkPages, Option.bind_eq_bind, Option.bind_eq_some_iff] at h
    obtain ⟨k₁, h₁, h⟩ := h
    have tasks := forkPage_tasks h₁
    have root (t : Nat) : k₁.root t = k.root t := by rw [Kernel.root, tasks]; rfl
    have page : Sharing roots parent child m₀ k₁.mem (7 * n + frames) := by
      apply forkPage_sharing hparent hchild parentIn childIn apart _ _ h₁
      · rwa [show 7 * (n + 1) + frames = 7 * n + frames + 7 by omega] at s
      · exact executable a List.mem_cons_self
    exact ih ((root cur).trans hparent) ((root slot).trans hchild) page
      (fun v hv => executable v (List.mem_cons_of_mem a hv)) h

theorem shareRegions_sharing {d : TaskMemoryDefinition}
    (regions : (k.taskManager cur).memoryData = d)
    (s : Sharing roots parent child m₀ k.mem
      (7 * (d.pageCount.toNat + d.stackPageCount.toNat) + frames))
    (executable : ∀ v ∈ sharedPages d, MappedExecutable m₀ parent v)
    (h : shareRegions k cur slot = some k') :
    Sharing roots parent child m₀ k'.mem frames := by
  simp only [shareRegions, regions, Option.bind_eq_bind, Option.bind_eq_some_iff] at h
  obtain ⟨k₁, h₁, h⟩ := h
  have tasks := forkPages_tasks h₁
  have root (t : Nat) : k₁.root t = k.root t := by rw [Kernel.root, tasks]; rfl
  have code : Sharing roots parent child m₀ k₁.mem (7 * d.stackPageCount.toNat + frames) := by
    apply forkPages_sharing hparent hchild parentIn childIn apart _ _ h₁
    · rwa [Nat.mul_add, Nat.add_assoc] at s
    · exact fun v hv => executable v (List.mem_append_left _ hv)
  exact forkPages_sharing ((root cur).trans hparent) ((root slot).trans hchild) parentIn childIn
    apart code (fun v hv => executable v (List.mem_append_right _ hv)) h

end Loop

/-! ## The whole call -/

/-- What a child needs: a slot, frames for its tables and its kernel stack, kernel addresses. -/
structure ForkReady (k : Kernel) : Prop where
  slot : findFreePID k ≠ taskCount + 1
  frames : k.mem.HasFree (7 * ((k.taskManager k.curPid).memoryData.pageCount.toNat +
    (k.taskManager k.curPid).memoryData.stackPageCount.toNat) + 30)
  heap : HeapRoom k.kernelTask 6

/-- The record of a child and its address space, before anything is in it. -/
structure ChildCreated (k k' : Kernel) (slot frames : Nat) : Prop where
  fresh : (k.taskManager slot).exist = false
  exist : (k'.taskManager slot).exist = true
  others : ∀ t, t ≠ slot → (k'.taskManager t).exist = (k.taskManager t).exist ∧
    (k'.taskManager t).basePML4 = (k.taskManager t).basePML4
  curPid : k'.curPid = k.curPid
  regions : (k'.taskManager k.curPid).memoryData = (k.taskManager k.curPid).memoryData
  space : NewSpace (spaces k) k.mem k'.mem (k'.root slot)
  frames : k'.mem.HasFree frames
  heap : HeapRoom k'.kernelTask 5

/-- The child's slot is filled before the kernel creates the address space. -/
theorem createChild_cases {slot : Nat} (free : findFreePID k ≠ taskCount + 1)
    (h : createChild k regs = some (k', slot)) :
    ∃ k₂ k₁ pml4, k₂.mem = k.mem ∧ k₂.curPid = k.curPid ∧
      (∀ t, t ≠ findFreePID k → k₂.taskManager t = k.taskManager t) ∧
      (k₂.taskManager (findFreePID k)).exist = true ∧
      kernelCreateUserMemory k₂ = some (k₁, pml4) ∧ slot = findFreePID k ∧
      k' = k₁.setTask slot { k₁.taskManager slot with basePML4 := pml4, ownerPID := k.curPid } := by
  simp only [createChild, registerTask, if_neg free, Option.bind_eq_bind, Option.bind_eq_some_iff,
    Prod.exists] at h
  obtain ⟨k₁, pml4, created, h⟩ := h
  cases h
  refine ⟨_, k₁, pml4, ?_, ?_, ?_, ?_, created, rfl, ?_⟩
  · rfl
  · rfl
  · intro t ht
    rw [Kernel.setTask_of_ne _ _ _ ht, registerTaskStrict, Kernel.setTask_of_ne _ _ _ ht]
  · rw [Kernel.setTask_self]
    rfl
  · rfl

theorem createChild_created {slot frames : Nat} (sep : SeparateSpaces k)
    (current : AddressSpaceCurrent k) (user : k.curPid ≠ 0) (free : findFreePID k ≠ taskCount + 1)
    (enough : k.mem.HasFree (frames + 5)) (heap : HeapRoom k.kernelTask 6)
    (h : createChild k regs = some (k', slot)) :
    slot = findFreePID k ∧ ChildCreated k k' slot frames := by
  obtain ⟨k₂, k₁, pml4, mem₂, cur₂, others₂, exist₂, created, found, final⟩ :=
    createChild_cases free h
  have fresh := findFreePID_free free
  rw [← found] at fresh others₂ exist₂
  have notIdle : 0 ≠ slot := fun eq => by
    rw [← eq, sep.idle] at fresh
    cases fresh
  have notCurrent : k.curPid ≠ slot := fun eq => by
    rw [← eq, sep.running] at fresh
    cases fresh
  rw [final]
  have heap₂ : HeapRoom k₂.kernelTask 6 := by
    rw [Kernel.kernelTask, others₂ 0 notIdle]
    exact heap
  have keeps := kernelCreateUserMemory_keeps created
  simp only [kernelCreateUserMemory, Option.bind_eq_bind, Option.bind_eq_some_iff,
    Prod.exists] at created
  obtain ⟨m, d, a, space, created⟩ := created
  cases created
  rw [mem₂] at space
  have root : frameOf k.mem.paging.pml4Physical ∈ spaces k := by
    rw [current.2]
    exact mem_spaces sep.running
  obtain ⟨m', a, spec, new, -, left, -⟩ := createUserMemory_spec sep.forest root
    (current.1.trans current.2.symm) heap₂.first enough
  rw [space] at spec
  cases spec
  refine ⟨found, fresh, ?_, ?_, cur₂, ?_, ?_, left, ?_⟩
  · rw [Kernel.setTask_self]
    exact (keeps.exist _).trans exist₂
  · intro t ht
    rw [Kernel.setTask_of_ne _ _ _ ht, keeps.exist, keeps.basePML4, others₂ t ht]
    exact ⟨rfl, rfl⟩
  · rw [Kernel.setTask_of_ne _ _ _ notCurrent]
    simp only [Kernel.setMemoryData]
    rw [Kernel.setTask_of_ne _ _ _ user]
    exact congrArg Task.memoryData (others₂ _ notCurrent)
  · rw [Kernel.root, Kernel.setTask_self]
    exact new
  · rw [Kernel.kernelTask, Kernel.setTask_of_ne _ _ _ notIdle]
    simp only [Kernel.setMemoryData, Kernel.setTask_self]
    exact heap₂.next

/-- `k'` has one task more than `k`, in an address space of its own. The other address spaces have
gained no rights, and the new one inherits the pages of the current task. -/
structure Forked (k k' : Kernel) (slot : Nat) : Prop where
  fresh : (k.taskManager slot).exist = false
  exist : (k'.taskManager slot).exist = true
  others : ∀ t, t ≠ slot → (k'.taskManager t).exist = (k.taskManager t).exist ∧
    (k'.taskManager t).basePML4 = (k.taskManager t).basePML4
  separate : SeparateSpaces k'
  narrow : RightsNarrow (spaces k) k.mem k'.mem
  inherits : Inherits k'.mem (k.root k.curPid) (k'.root slot)

/-- One more task, in an address space of its own. -/
theorem spaces_add {slot : Nat} (fresh : (k.taskManager slot).exist = false)
    (exist : (k'.taskManager slot).exist = true)
    (others : ∀ t, t ≠ slot → (k'.taskManager t).exist = (k.taskManager t).exist ∧
      (k'.taskManager t).basePML4 = (k.taskManager t).basePML4) :
    spaces k' = insert (k'.root slot) (spaces k) := by
  have root {t : Nat} (ht : t ≠ slot) : k'.root t = k.root t := by
    rw [Kernel.root, (others t ht).2]
    rfl
  ext r
  constructor
  · rintro ⟨t, ht, rfl⟩
    by_cases new : t = slot
    · rw [new]
      exact Set.mem_insert _ _
    · exact Set.mem_insert_of_mem _ ⟨t, (others t new).1 ▸ ht, (root new).symm⟩
  · rintro (rfl | ⟨t, ht, rfl⟩)
    · exact mem_spaces exist
    · have old : t ≠ slot := by
        rintro rfl
        rw [fresh] at ht
        cases ht
      exact ⟨t, ((others t old).1).trans ht, root old⟩

/-- A new task in a frame that is no page table so far. -/
theorem SeparateSpaces.add {slot : Nat} (sep : SeparateSpaces k)
    (fresh : (k.taskManager slot).exist = false) (exist : (k'.taskManager slot).exist = true)
    (others : ∀ t, t ≠ slot → (k'.taskManager t).exist = (k.taskManager t).exist ∧
      (k'.taskManager t).basePML4 = (k.taskManager t).basePML4)
    (root : k'.root slot ∉ spaces k) (forest : Forest k'.mem (insert (k'.root slot) (spaces k)))
    (curPid : k'.curPid = k.curPid) : SeparateSpaces k' := by
  have old {t : Nat} (ht : (k.taskManager t).exist = true) : t ≠ slot := fun eq => by
    rw [eq, fresh] at ht
    cases ht
  have sameRoot {t : Nat} (ht : t ≠ slot) : k'.root t = k.root t := by
    rw [Kernel.root, (others t ht).2]
    rfl
  have cases {t : Nat} (ht : (k'.taskManager t).exist = true) :
      t = slot ∨ t ≠ slot ∧ (k.taskManager t).exist = true := by
    by_cases eq : t = slot
    · exact .inl eq
    · exact .inr ⟨eq, (others t eq).1 ▸ ht⟩
  have all : spaces k' = insert (k'.root slot) (spaces k) := spaces_add fresh exist others
  refine ⟨all ▸ forest, fun s t hs ht same => ?_, ?_, ?_⟩
  · obtain rfl | ⟨sne, hs⟩ := cases hs
    · obtain rfl | ⟨tne, ht⟩ := cases ht
      · rfl
      · rw [sameRoot tne] at same
        exact absurd (same ▸ mem_spaces ht) root
    · rw [sameRoot sne] at same
      obtain rfl | ⟨tne, ht⟩ := cases ht
      · exact absurd (same ▸ mem_spaces hs) root
      · rw [sameRoot tne] at same
        exact sep.own s t hs ht same
  · exact ((others 0 (old sep.idle)).1).trans sep.idle
  · rw [curPid]
    exact ((others _ (old sep.running)).1).trans sep.running

/-- `fork` before its copy loops (`k₂`), after them (`k₃`) and at its end. The loops run between the
parent's address space and the empty one of the child; then the kernel stack is allocated in the
parent's. -/
structure ForkStages (k k₂ k₃ k' : Kernel) (slot : Nat) : Prop where
  fresh : (k.taskManager slot).exist = false
  exist : (k'.taskManager slot).exist = true
  others : ∀ t, t ≠ slot → (k'.taskManager t).exist = (k.taskManager t).exist ∧
    (k'.taskManager t).basePML4 = (k.taskManager t).basePML4
  curPid : k'.curPid = k.curPid
  space : NewSpace (spaces k) k.mem k₂.mem (k'.root slot)
  frames : k₂.mem.HasFree (7 * ((k.taskManager k.curPid).memoryData.pageCount.toNat +
    (k.taskManager k.curPid).memoryData.stackPageCount.toNat) + 25)
  parentRoot : k₂.root k.curPid = k.root k.curPid
  childRoot : k₂.root slot = k'.root slot
  regions : (k₂.taskManager k.curPid).memoryData = (k.taskManager k.curPid).memoryData
  loops : shareRegions k₂ k.curPid slot = some k₃
  stack : ∀ roots, Forest k₃.mem roots → k.root k.curPid ∈ roots → k₃.mem.HasFree 25 →
    ∃ b m a, KeepsUser roots (memSetCr3 k₃.mem b) m ∧ k'.mem = memSetCr3 m a

theorem syscallFork_stages {r : SyscallResult} (sep : SeparateSpaces k)
    (current : AddressSpaceCurrent k) (user : k.curPid ≠ 0) (ready : ForkReady k)
    (h : syscallFork k regs = some r) :
    ∃ k₂ k₃, ForkStages k k₂ k₃ r.kernel (findFreePID k) := by
  simp only [syscallFork, Option.bind_eq_bind, Option.bind_eq_some_iff, Prod.exists] at h
  obtain ⟨k₁, slot, created, k₃, shared, k₄, given, h⟩ := h
  cases h
  obtain ⟨found, child⟩ := createChild_created sep current user ready.slot ready.frames ready.heap
    created
  rw [← found]
  have notCurrent : k.curPid ≠ slot := fun eq => by
    have fresh := child.fresh
    rw [← eq, sep.running] at fresh
    cases fresh
  obtain ⟨k₂, hk₂⟩ : ∃ k₂, k₁.setRegisters k.curPid
      { (k₁.taskManager k.curPid).savedRegisters with rax := BitVec.ofNat 64 slot } = k₂ := ⟨_, rfl⟩
  rw [hk₂] at shared
  have root₂ (t : Nat) : k₂.root t = k₁.root t := by
    rw [← hk₂, Kernel.root, Kernel.setRegisters_basePML4]
    rfl
  have parentRoot : k₂.root k.curPid = k.root k.curPid := by
    rw [root₂, Kernel.root, (child.others _ notCurrent).2]
    rfl
  have regions₂ (t : Nat) : (k₂.taskManager t).memoryData = (k₁.taskManager t).memoryData := by
    rw [← hk₂, Kernel.setRegisters_memoryData]
  have tasks₃ := shareRegions_tasks shared
  have stack := giveKernelStack_keeps given
  obtain ⟨k₆, hk₆⟩ : ∃ k₆, (k₄.enter k.curPid).setTask slot
      { (k₄.enter k.curPid).taskManager slot with ownerPID := k.curPid, processState := .ready } = k₆ :=
    ⟨_, rfl⟩
  have spaces₆ : KeepsSpaces (k₄.enter k.curPid) k₆ := hk₆ ▸ .setTask rfl rfl
  have same (t : Nat) : (k₆.taskManager t).exist = (k₁.taskManager t).exist ∧
      (k₆.taskManager t).basePML4 = (k₁.taskManager t).basePML4 := by
    rw [spaces₆.exist, spaces₆.basePML4, Kernel.enter_taskManager, stack.exist, stack.basePML4,
      Kernel.enter_taskManager, tasks₃, ← hk₂, Kernel.setRegisters_exist,
      Kernel.setRegisters_basePML4]
    exact ⟨rfl, rfl⟩
  have childRoot : k₆.root slot = k₁.root slot := by
    rw [Kernel.root, (same slot).2]
    rfl
  change ∃ k₂ k₃, ForkStages k k₂ k₃ ((k₄.enter k.curPid).setTask slot
    { (k₄.enter k.curPid).taskManager slot with ownerPID := k.curPid, processState := .ready }) slot
  rw [hk₆]
  refine ⟨k₂, k₃, child.fresh, (same slot).1.trans child.exist, fun t ht => ?_, hk₆ ▸ rfl, ?_, ?_,
    parentRoot, (root₂ slot).trans childRoot.symm, (regions₂ _).trans child.regions, shared,
    fun roots forest parentIn free => ?_⟩
  · rw [(same t).1, (same t).2]
    exact child.others t ht
  · rw [childRoot, ← hk₂]
    exact child.space
  · rw [← hk₂]
    exact child.frames
  · have heap : HeapRoom (k₃.enter k.curPid).kernelTask 5 := by
      rw [Kernel.kernelTask, Kernel.enter_taskManager, tasks₃, regions₂]
      exact child.heap
    have root : (k₃.enter k.curPid).root k.curPid = k.root k.curPid := by
      rw [Kernel.root, Kernel.enter_taskManager, tasks₃]
      exact parentRoot
    have currentIn : (k₃.enter k.curPid).root k.curPid ∈ roots := root ▸ parentIn
    have forest' : Forest (k₃.enter k.curPid).mem roots := forest.of_frames rfl rfl forest.marked
    have final : k₆.mem = memSetCr3 k₄.mem (k₄.taskManager k.curPid).basePML4 := by
      rw [← hk₆]
      rfl
    simp only [giveKernelStack, Option.bind_eq_bind, Option.bind_eq_some_iff, Prod.exists] at given
    obtain ⟨k₅, a, malloced, given⟩ := given
    cases given
    exact ⟨_, _, _, mallocKernelStack_keepsUser 0 forest' currentIn heap free malloced, final⟩

section Stages

variable {k₂ k₃ : Kernel} {slot : Nat} (s : ForkStages k k₂ k₃ k' slot) (sep : SeparateSpaces k)
include s sep

theorem ForkStages.apart : k.root k.curPid ≠ k'.root slot :=
  sep.forest.ne_free s.space.free ⟨_, mem_spaces sep.running, [], by simp, RadixTree.tableAt_nil⟩

theorem ForkStages.unused : k'.root slot ∉ spaces k := fun used =>
  sep.forest.ne_free s.space.free ⟨_, used, [], by simp, RadixTree.tableAt_nil⟩ rfl

end Stages

theorem syscallFork_forked {r : SyscallResult} (sep : SeparateSpaces k)
    (current : AddressSpaceCurrent k) (user : k.curPid ≠ 0) (ready : ForkReady k)
    (executable : ∀ v ∈ sharedPages (k.taskManager k.curPid).memoryData,
      MappedExecutable k.mem (k.root k.curPid) v)
    (h : syscallFork k regs = some r) : Forked k r.kernel (findFreePID k) := by
  obtain ⟨k₂, k₃, stages⟩ := syscallFork_stages sep current user ready h
  obtain ⟨slot, hslot⟩ : ∃ slot, findFreePID k = slot := ⟨_, rfl⟩
  rw [hslot] at stages ⊢
  have unused := stages.unused sep
  obtain ⟨roots, hroots⟩ : ∃ roots, insert (r.kernel.root slot) (spaces k) = roots := ⟨_, rfl⟩
  have parentIn : k.root k.curPid ∈ roots :=
    hroots ▸ Set.mem_insert_of_mem _ (mem_spaces sep.running)
  have childIn : r.kernel.root slot ∈ roots := hroots ▸ Set.mem_insert _ _
  have smaller : roots \ {r.kernel.root slot} ⊆ spaces k := by
    rintro r ⟨hr, ne⟩
    rw [← hroots] at hr
    exact hr.resolve_left ne
  have loops := shareRegions_sharing stages.parentRoot stages.childRoot parentIn childIn
    (stages.apart sep) stages.regions
    ⟨hroots ▸ stages.space.forest, stages.frames,
      (RightsNarrow.of_keepsUser stages.space.keeps).mono smaller, .of_empty stages.space.empty⟩
    executable stages.loops
  obtain ⟨b, m, a, keeps, final⟩ := stages.stack roots loops.forest parentIn loops.free
  have narrow : RightsNarrow roots k₃.mem r.kernel.mem := by
    rw [final]
    exact fun r hr p hp j => .of_walk (keeps.word r hr p hp j)
  have forest : Forest r.kernel.mem (insert (r.kernel.root slot) (spaces k)) := by
    rw [final, hroots]
    exact keeps.forest.of_frames rfl rfl keeps.forest.marked
  refine ⟨stages.fresh, stages.exist, stages.others, ?_, ?_, ?_⟩
  · exact sep.add stages.fresh stages.exist stages.others unused forest stages.curPid
  · intro r' hr
    have notChild : r' ≠ r.kernel.root slot := fun eq => unused (eq ▸ hr)
    have wide : r' ∈ roots := hroots ▸ Set.mem_insert_of_mem _ hr
    exact fun p hp j => (loops.narrow r' ⟨wide, notChild⟩ p hp j).trans (narrow r' wide p hp j)
  · exact loops.inherits.narrow narrow parentIn childIn

end ChudOS
