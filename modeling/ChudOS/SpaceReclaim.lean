import ChudOS.ContextSwitch
import ChudOS.InterruptCalls

/-!
# Giving an address space back

`Create_User_Memory` marks the frame of a new PML4 as the kernel's. Nothing takes a frame away from
the kernel, `free_task_memory` included: `mem_ClearBit` clears the bit "used" alone. So the frame of
the PML4 is not free again after the tear-down, whatever happened in between.

## Main definitions

* `TaskCreated` — a program has been loaded, or forked, into a new address space.
* `Reclaimed` — what the tear-down of an address space is to leave.
-/

namespace ChudOS

open Transition

variable {k k' k'' : Kernel} {m m' : Memory} {roots : Set Nat} {pml4 : U64}

/-- A frame the lower half of the address space `root` leads to: a table or a page. -/
def LowerFrame (m : Memory) (root f : Nat) : Prop :=
  ∃ i p, p.length ≤ 3 ∧ ¬kernelHalf i ∧ m.tableAt root (i :: p) = some f

/-- The roots of the address spaces of all tasks but those in the space `pml4`. -/
def otherSpaces (k : Kernel) (pml4 : U64) : Set Nat :=
  {r | ∃ p, (k.taskManager p).exist = true ∧ (k.taskManager p).basePML4 ≠ pml4 ∧
    r = frameOf (k.taskManager p).basePML4}

/-- From `k` to the memory `m'` the space `pml4` has been reclaimed: its own frames are free, the
frames it shared have one reference less, and the others are as they were. -/
structure Reclaimed (k : Kernel) (m' : Memory) (pml4 : U64) : Prop where
  root : memGetBit m' pml4 = false
  own : ∀ f, LowerFrame k.mem (frameOf pml4) f →
    (∀ r ∈ otherSpaces k pml4, ¬LowerFrame k.mem r f) → m'.marked f = false
  shared : ∀ f, LowerFrame k.mem (frameOf pml4) f →
    (∃ r ∈ otherSpaces k pml4, LowerFrame k.mem r f) → m'.marked f = true ∧
      (m'.physFrames f).refcount = (k.mem.physFrames f).refcount - 1
  others : ∀ f, f ≠ frameOf pml4 → ¬LowerFrame k.mem (frameOf pml4) f →
    m'.physFrames f = k.mem.physFrames f

/-- The state in which an address space can be created: sound page tables, `KernelTask` in its slot,
and five frames left besides frame 0, which is never handed out. -/
structure SpacesReady (k : Kernel) (roots : Set Nat) : Prop where
  forest : Forest k.mem roots
  current : frameOf k.mem.paging.pml4Physical ∈ roots
  selected : k.mem.paging.cr3 = k.mem.paging.pml4Physical
  idle : (k.taskManager 0).exist = true
  kernelPages : virtualMemoryBarrier ≤ nextPageAddress k.kernelTask
  free : k.mem.HasFree 5
  reserved : k.mem.marked 0 = true

/-- A task has got a new address space: `LoadElfStrict` in a space that its caller created, or
`fork`. -/
inductive TaskCreated (k : Kernel) : Kernel → U64 → Prop
  | load {k₁ k' : Kernel} {dev : Devices} {lba pml4 : U64} {pid : Nat} {argv : List (List U8)} :
      kernelCreateUserMemory k = some (k₁, pml4) → elfAccepted (elfHeader (dev.readLBA lba)) = true →
      loadElfStrict k₁ dev lba pid pml4 argv = some k' → TaskCreated k k' pml4
  | fork {k₁ : Kernel} {regs : InterruptRegisters} {child : Nat} {r : SyscallResult} :
      createChild k regs = some (k₁, child) → syscallFork k regs = some r →
      TaskCreated k r.kernel (k₁.taskManager child).basePML4

/-- One of the two functions that tear an address space down has run. -/
inductive SpaceFreed (k : Kernel) (pml4 : U64) : Memory → Prop
  | task {fuel pid : Nat} {k' : Kernel} : (k.taskManager pid).basePML4 = pml4 →
      freeTaskMemory fuel k pid = some k' → SpaceFreed k pml4 k'.mem
  | pml4 {fuel : Nat} {m : Memory} : freeTaskMemoryByPml4 fuel k.mem pml4 = some m →
      SpaceFreed k pml4 m

theorem SpaceFreed.calls (h : SpaceFreed k pml4 m) : MemoryCalls k.mem m := by
  cases h with
  | task _ freed => exact freeTaskMemory_calls freed
  | pml4 freed => exact freeTaskMemoryByPml4_calls freed

/-! ## The PML4 belongs to the kernel -/

/-- A frame of the kernel that the allocator handed out. -/
def KernelFrame (m : Memory) (f : Nat) : Prop := f ≠ 0 ∧ m.owned f = true

theorem KernelFrame.calls {f : Nat} (h : KernelFrame m f) (later : MemoryCalls m m') :
    KernelFrame m' f := ⟨h.1, later.owned h.1 h.2⟩

theorem kernelCreateUserMemory_owned (ready : SpacesReady k roots)
    (h : kernelCreateUserMemory k = some (k', pml4)) : KernelFrame k'.mem (frameOf pml4) := by
  simp only [kernelCreateUserMemory, Option.bind_eq_bind, Option.bind_eq_some_iff,
    Prod.exists] at h
  obtain ⟨m, d, a, created, h⟩ := h
  cases h
  obtain ⟨m', a, spec, space, five, -⟩ := createUserMemory_spec (k := 0) ready.forest
    ready.current ready.selected ready.kernelPages ready.free
  rw [created] at spec
  cases spec
  refine ⟨fun zero => ?_, ?_⟩
  · exact space.free.not_marked (zero ▸ ready.reserved)
  · exact bne_iff_ne.mpr (five ▸ (by decide : (0b101 : U8) &&& 0b100 ≠ 0))

theorem SpacesReady.of_idle (ready : SpacesReady k roots) (mem : k'.mem = k.mem)
    (idle : k'.taskManager 0 = k.taskManager 0) : SpacesReady k' roots where
  forest := mem ▸ ready.forest
  current := mem ▸ ready.current
  selected := mem ▸ ready.selected
  idle := idle ▸ ready.idle
  kernelPages := by rw [Kernel.kernelTask, idle]; exact ready.kernelPages
  free := mem ▸ ready.free
  reserved := mem ▸ ready.reserved

theorem TaskCreated.owned (ready : SpacesReady k roots) (h : TaskCreated k k' pml4) :
    KernelFrame k'.mem (frameOf pml4) := by
  cases h with
  | load created _ loaded =>
    exact (kernelCreateUserMemory_owned ready created).calls (loadElfStrict_calls loaded)
  | fork created forked =>
    obtain ⟨k₁, child, again, rest⟩ := syscallFork_calls forked
    rw [again] at created
    obtain ⟨rfl, rfl⟩ : k₁ = _ ∧ child = _ := by simpa using created
    simp only [createChild, Option.bind_eq_bind, Option.bind_eq_some_iff, Prod.exists] at again
    obtain ⟨k₂, a, space, h⟩ := again
    cases h
    obtain ⟨other, same⟩ := registerTask_others ready.idle
      (fun slot => absurd slot Nat.zero_ne_one) _ _ _ _ _ _
    have owned : KernelFrame k₂.mem (frameOf a) := by
      refine kernelCreateUserMemory_owned (ready.of_idle ?_ ?_) space
      · rw [Kernel.setTask_mem, registerTask_mem]
      · rw [Kernel.setTask_of_ne _ _ _ other, same]
    rw [Kernel.setTask_self]
    exact owned.calls rest

/-- Whatever the kernel does between the creation of a task and the tear-down of its address space,
the space is not reclaimed. -/
theorem never_reclaimed (ready : SpacesReady k roots) (created : TaskCreated k k' pml4)
    (later : MemoryCalls k'.mem k''.mem) (freed : SpaceFreed k'' pml4 m) :
    ¬Reclaimed k'' m pml4 := by
  intro reclaimed
  obtain ⟨-, owned⟩ := ((created.owned ready).calls later).calls freed.calls
  have marked : memGetBit m pml4 = true := Memory.marked_of_owned owned
  cases reclaimed.root.symm.trans marked

/-! ## A task without pages -/

/-- Sixteen frames, of which the first is reserved and the second holds an empty PML4; a task in
slot 1 has neither code nor stack. -/
def bareKernel : Kernel :=
  { idleKernel with
    mem := emptySpace.setFlags 0 0b101
    taskManager := fun p => if p = 0 then idleTask else if p = 1 then
      { zeroTask with basePML4 := 0x1000, exist := true } else zeroTask
    curPid := 1 }

theorem bareKernel_ready : SpacesReady bareKernel {1} where
  forest := setFlags_forest emptySpace_forest (by decide)
  current := by decide
  selected := rfl
  idle := rfl
  kernelPages := by decide
  free := by
    refine ⟨{2, 3, 4, 5, 6}, by decide, fun f hf => ?_⟩
    have : f = 2 ∨ f = 3 ∨ f = 4 ∨ f = 5 ∨ f = 6 := by simpa using hf
    obtain rfl | rfl | rfl | rfl | rfl := this <;> exact ⟨by decide, by decide⟩
  reserved := by decide

/-- The task forks a child. -/
def bareChild : Kernel × Nat := (createChild bareKernel zeroRegisters).getD (bareKernel, 0)

def bareFork : SyscallResult :=
  (syscallFork bareKernel zeroRegisters).getD (continues bareKernel zeroRegisters)

/-- The PML4 of the child. -/
def barePml4 : U64 := (bareChild.1.taskManager bareChild.2).basePML4

/-- The memory after the child's address space has been torn down. -/
def bareFreed : Memory :=
  (freeTaskMemoryByPml4 4 bareFork.kernel.mem barePml4).getD bareFork.kernel.mem

theorem bareKernel_created : TaskCreated bareKernel bareFork.kernel barePml4 := by
  have created : (createChild bareKernel zeroRegisters).isSome = true := by decide +kernel
  have forked : (syscallFork bareKernel zeroRegisters).isSome = true := by decide +kernel
  obtain ⟨⟨k₁, child⟩, created⟩ := Option.isSome_iff_exists.mp created
  obtain ⟨r, forked⟩ := Option.isSome_iff_exists.mp forked
  rw [barePml4, bareFork, bareChild, created, forked]
  exact .fork created forked

theorem bareKernel_freed : SpaceFreed bareFork.kernel barePml4 bareFreed := by
  have freed : (freeTaskMemoryByPml4 4 bareFork.kernel.mem barePml4).isSome = true := by
    decide +kernel
  obtain ⟨m, freed⟩ := Option.isSome_iff_exists.mp freed
  rw [bareFreed, freed]
  exact .pml4 freed

theorem never_reclaimed_bare : ¬Reclaimed bareFork.kernel bareFreed barePml4 :=
  never_reclaimed bareKernel_ready bareKernel_created .refl bareKernel_freed

/-- The child of the bare task is torn down at once, and its PML4 stays used. -/
theorem fork_leaks_root :
    ¬∀ (k k' k'' : Kernel) (roots : Set Nat) (pml4 : U64) (m : Memory), SpacesReady k roots →
      TaskCreated k k' pml4 → MemoryCalls k'.mem k''.mem → SpaceFreed k'' pml4 m →
        Reclaimed k'' m pml4 := by
  intro claimed
  have reclaimed := claimed _ _ _ _ _ _ bareKernel_ready bareKernel_created .refl bareKernel_freed
  exact absurd reclaimed.root (by decide +kernel)

end ChudOS
