import ChudOS.ForkRights

/-!
# Running out of PIDs

`FindFreePID` says `TASK_COUNT + 1` when every slot is taken, and `RegisterTask` says 1, which is a
PID. `FORK` and `LoadElf` go on with the number they get.

* `Spawn` — the two ways to a new task.
* `Harmless` — nothing but the caller's saved frame has changed.
-/

namespace ChudOS

variable {k k' k'' : Kernel} {dev : Devices} {fuel pid p n : Nat} {a lba : U64}

/-! ## Records of other tasks -/

theorem allocStack_others (h : allocStack k pid = some k') (hp : p ≠ pid) :
    k'.taskManager p = k.taskManager p := by
  simp only [allocStack, Option.bind_eq_bind, Option.bind_eq_some_iff, Prod.exists] at h
  obtain ⟨m, stack, -, m', -, h⟩ := h
  cases h
  exact Kernel.setTask_of_ne _ _ _ hp

theorem allocSegment_others {permissions : PagePermissions}
    (h : allocSegment k pid permissions a n = some k') (hp : p ≠ pid) :
    k'.taskManager p = k.taskManager p := by
  induction n generalizing k a with
  | zero => cases h; rfl
  | succ n ih =>
    simp only [allocSegment, Option.bind_eq_bind, Option.bind_eq_some_iff, Prod.exists] at h
    obtain ⟨m, b, -, h⟩ := h
    exact (ih h).trans (Kernel.setTask_of_ne _ _ _ hp)

theorem loadSegment_others {header : ProgramHeader64}
    (h : loadSegment k dev lba pid header = some k') (hp : p ≠ pid) :
    k'.taskManager p = k.taskManager p := by
  unfold loadSegment at h
  split at h
  · simp only [Option.bind_eq_bind, Option.bind_eq_some_iff] at h
    obtain ⟨k₁, pages, m, -, h⟩ := h
    cases h
    apply (allocSegment_others pages hp).trans
    split
    · exact Kernel.setTask_of_ne _ _ _ hp
    · rfl
  · cases h
    rfl

theorem loadSegments_others {headers : List ProgramHeader64}
    (h : loadSegments k dev lba pid headers = some k') (hp : p ≠ pid) :
    k'.taskManager p = k.taskManager p := by
  induction headers generalizing k with
  | nil => cases h; rfl
  | cons header headers ih =>
    simp only [loadSegments, Option.bind_eq_bind, Option.bind_eq_some_iff] at h
    obtain ⟨k₁, h₁, h⟩ := h
    exact (ih h).trans (loadSegment_others h₁ hp)

theorem setupTaskStack_others {argv : List (List U8)} (h : setupTaskStack k pid argv = some k')
    (hp : p ≠ pid) : k'.taskManager p = k.taskManager p := by
  simp only [setupTaskStack, Option.bind_eq_bind, Option.bind_eq_some_iff, Prod.exists] at h
  obtain ⟨m, stack, pointers, -, m', stack', -, m'', -, h⟩ := h
  cases h
  exact Kernel.setTask_of_ne _ _ _ hp

/-! ## Pages of the kernel -/

/-- `KernelTask` has between none and `n` pages more. -/
def KernelPages (n : Nat) (k k' : Kernel) : Prop :=
  ∃ j ≤ n, k'.kernelTask.pageCount = k.kernelTask.pageCount + BitVec.ofNat 64 j

theorem KernelPages.trans {n' : Nat} (h : KernelPages n k k') (g : KernelPages n' k' k'') :
    KernelPages (n + n') k k'' := by
  obtain ⟨i, hi, first⟩ := h
  obtain ⟨j, hj, second⟩ := g
  refine ⟨i + j, by omega, ?_⟩
  rw [second, first, BitVec.add_assoc, ← BitVec.ofNat_add]

theorem kernelMalloc_pages (h : kernelMalloc k = some (k', a)) : KernelPages 1 k k' := by
  simp only [kernelMalloc, Option.bind_eq_bind, Option.bind_eq_some_iff, Prod.exists] at h
  obtain ⟨m, d, b, malloced, h⟩ := h
  cases h
  have kernel : ({ k with mem := m }.setMemoryData 0 d).kernelTask = d := by
    rw [Kernel.kernelTask, Kernel.setMemoryData, Kernel.setTask_self]
  obtain ⟨m₁, -, ⟨-, rfl, -⟩ | ⟨-, rfl, -⟩⟩ := malloc_cases malloced
  · refine ⟨0, Nat.zero_le 1, ?_⟩
    rw [kernel]
    simp
  · refine ⟨1, Nat.le_refl 1, ?_⟩
    rw [kernel]
    rfl

theorem mallocKernelStack_pages (h : mallocKernelStack k = some (k', a)) : KernelPages 5 k k' := by
  simp only [mallocKernelStack, Option.bind_eq_bind, Option.bind_eq_some_iff, Prod.exists] at h
  obtain ⟨k₁, _, h₁, k₂, _, h₂, k₃, _, h₃, k₄, _, h₄, h₅⟩ := h
  have four := (((kernelMalloc_pages h₁).trans (kernelMalloc_pages h₂)).trans
    (kernelMalloc_pages h₃)).trans (kernelMalloc_pages h₄)
  exact four.trans (kernelMalloc_pages h₅)

theorem kernelCreateUserMemory_counts (high : virtualMemoryBarrier ≤ nextPageAddress k.kernelTask)
    (h : kernelCreateUserMemory k = some (k', a)) :
    k'.kernelTask.pageCount = k.kernelTask.pageCount + 1 := by
  simp only [kernelCreateUserMemory, Option.bind_eq_bind, Option.bind_eq_some_iff,
    Prod.exists] at h
  obtain ⟨m, d, pml4, created, h⟩ := h
  cases h
  obtain ⟨m₁, va, f, malloced, -⟩ := createUserMemory_cases created
  rw [Kernel.kernelTask, Kernel.setMemoryData, Kernel.setTask_self]
  obtain ⟨-, -, rfl, -⟩ := malloc_kernel (BitVec.not_lt.mpr high) malloced
  rfl

/-- A program that is loaded costs the kernel a page at least. -/
theorem loadElf_pages (idle : (k.taskManager 0).exist = true)
    (high : virtualMemoryBarrier ≤ nextPageAddress k.kernelTask)
    (accepted : elfAccepted (elfHeader (dev.readLBA lba)) = true)
    (h : loadElf k dev lba = some (k', a)) :
    ∃ j ≤ 5, k'.kernelTask.pageCount = k.kernelTask.pageCount + 1 + BitVec.ofNat 64 j := by
  unfold loadElf at h
  dsimp only at h
  rw [if_pos accepted] at h
  simp only [Option.bind_eq_bind, Option.bind_eq_some_iff, Prod.exists] at h
  obtain ⟨k₁, pml4, created, k₂, stacked, k₃, loaded, k₄, stack, malloced, k₅, pushed, h⟩ := h
  cases h
  have page := kernelCreateUserMemory_counts high created
  have exist₁ : ((k₁.setCr3 pml4).taskManager 0).exist = true :=
    ((kernelCreateUserMemory_keeps created).exist 0).trans idle
  have other := taken_ne_findFreePID (Nat.zero_le taskCount) exist₁
  obtain ⟨slot, hslot⟩ : ∃ slot, findFreePID (k₁.setCr3 pml4) = slot := ⟨_, rfl⟩
  rw [hslot] at stacked loaded malloced pushed other ⊢
  have before : k₃.taskManager 0 = k₁.taskManager 0 := by
    rw [loadSegments_others loaded other, allocStack_others stacked other,
      Kernel.setTask_of_ne _ _ _ other]
    rfl
  obtain ⟨j, hj, grown⟩ := mallocKernelStack_pages malloced
  have exist₄ : (k₄.taskManager 0).exist = true := by
    rw [(mallocKernelStack_keeps malloced).exist, Kernel.setMemoryData,
      Kernel.setTask_of_ne _ _ _ other, before]
    exact exist₁
  refine ⟨j, hj, ?_⟩
  have after := setupTaskStack_others pushed other
  rw [Kernel.setTask_of_ne _ _ _ other, (registerTask_others _ _ _ _ _ _ _ _).2] at after
  · dsimp only at after
    rw [Kernel.setMemoryData, Kernel.setTask_of_ne _ _ _ other] at after
    change ((k₅.setState slot .ready).taskManager 0).memoryData.pageCount = _
    rw [Kernel.setState, Kernel.setTask_of_ne _ _ _ other, after]
    change k₄.kernelTask.pageCount = _
    rw [grown, ← page, Kernel.kernelTask, Kernel.setMemoryData, Kernel.setTask_of_ne _ _ _ other,
      before]
    rfl
  · change ((k₄.setMemoryData slot _).taskManager 0).exist = true
    rw [Kernel.setMemoryData, Kernel.setTask_of_ne _ _ _ other]
    exact exist₄
  · intro zero
    cases zero

/-! ## Both ways -/

/-- `FORK` from a task, with its frame, and `LoadElf` of a file, from its first sector on. -/
inductive Spawn where
  | fork (regs : InterruptRegisters)
  | loadElf (lba : U64)

/-- The result is the frame's `rax`, or the base address. -/
def Spawn.run (fuel : Nat) (dev : Devices) (k : Kernel) : Spawn → Option (Kernel × U64)
  | .fork regs => (handleSyscall fuel dev k { regs with rax := 4 }).map fun r => (r.1, r.2.rax)
  | .loadElf lba => ChudOS.loadElf k dev lba

/-- The caller can tell that there is no new task: the result names no slot, or it is `NULL`. -/
def Spawn.Failed (result : U64) : Spawn → Prop
  | .fork _ => taskCount ≤ result.toNat
  | .loadElf _ => result = 0

/-- Nothing has been mapped, and the records of all tasks, and what lies behind them, are as they
were; but the caller's frame may have been saved. -/
structure Harmless (k k' : Kernel) : Prop where
  others : ∀ t ≠ k.curPid, k'.taskManager t = k.taskManager t
  caller : k'.taskManager k.curPid = { k.taskManager k.curPid with
    savedRegisters := (k'.taskManager k.curPid).savedRegisters }
  ram : k'.mem.ram = k.mem.ram
  frames : k'.mem.physFrames = k.mem.physFrames

/-- Every slot is taken. -/
def TableFull (k : Kernel) : Prop := ∀ t < taskCount, (k.taskManager t).exist = true

theorem findFreePID_full (full : TableFull k) : findFreePID k = taskCount + 1 := by
  unfold findFreePID
  have none : ((List.range taskCount).find? fun i => !(k.taskManager i).exist) = none := by
    rw [List.find?_eq_none]
    intro i hi
    simpa using full i (List.mem_range.mp hi)
  rw [none]
  rfl

/-- Without a free slot `FORK` takes slot 1, and says so. -/
theorem syscallFork_full {regs : InterruptRegisters} {r : SyscallResult} (full : TableFull k)
    (h : syscallFork k regs = some r) : r.frame.rax = 1 := by
  simp only [syscallFork, createChild, registerTask, if_pos (findFreePID_full full),
    Option.bind_eq_bind, Option.bind_eq_some_iff, Prod.exists] at h
  obtain ⟨k₁, slot, ⟨k₂, pml4, created, child⟩, k₃, shared, k₄, given, h⟩ := h
  cases child
  cases h
  rfl

theorem fork_full {regs : InterruptRegisters} {r : Kernel × InterruptRegisters} (full : TableFull k)
    (h : handleSyscall fuel dev k { regs with rax := 4 } = some r) : r.2.rax = 1 := by
  simp only [handleSyscall, Option.bind_eq_bind, Option.bind_eq_some_iff] at h
  obtain ⟨s, forked, h⟩ := h
  have entered : TableFull ((k.setRegisters k.curPid { regs with rax := 4 }).setCr3
      ((k.setRegisters k.curPid { regs with rax := 4 }).taskManager k.curPid).basePML4) := by
    intro t ht
    rw [Kernel.setCr3_taskManager, Kernel.setRegisters_exist]
    exact full t ht
  have one : s.frame.rax = 1 := syscallFork_full entered forked
  split at h
  · cases h
    exact one
  · cases h
    exact one

theorem loadElf_rejected (rejected : elfAccepted (elfHeader (dev.readLBA lba)) = false) :
    loadElf k dev lba = some (k, 0) := by
  have no : ¬elfAccepted (elfHeader (dev.readLBA lba)) = true := by
    rw [rejected]
    decide
  unfold loadElf
  exact if_neg no

/-- The kernel's page is what gives an accepted program away. -/
theorem loadElf_harms (idle : (k.taskManager 0).exist = true)
    (heap : virtualMemoryBarrier ≤ nextPageAddress k.kernelTask)
    (accepted : elfAccepted (elfHeader (dev.readLBA lba)) = true)
    (h : loadElf k dev lba = some (k', a)) : ¬Harmless k k' := by
  intro harmless
  obtain ⟨j, hj, grown⟩ := loadElf_pages idle heap accepted h
  have same : k'.kernelTask = k.kernelTask := by
    by_cases caller : 0 = k.curPid
    · have record := harmless.caller
      rw [← caller] at record
      rw [Kernel.kernelTask, record]
      rfl
    · rw [Kernel.kernelTask, harmless.others 0 caller]
      rfl
  rw [same] at grown
  have count : (k.kernelTask.pageCount + 1 + BitVec.ofNat 64 j).toNat =
      (k.kernelTask.pageCount.toNat + 1 + j) % 2 ^ 64 := by
    have one : (1 : U64).toNat = 1 := rfl
    simp only [BitVec.toNat_add, BitVec.toNat_ofNat, one]
    omega
  have bound := k.kernelTask.pageCount.isLt
  rw [← grown] at count
  omega

/-- Running out of PIDs is harmless just when the file is no program. -/
theorem pid_exhaustion_harmless (full : TableFull k)
    (heap : virtualMemoryBarrier ≤ nextPageAddress k.kernelTask) (c : Spawn) :
    (∃ k' result, c.run fuel dev k = some (k', result) ∧ c.Failed result ∧ Harmless k k') ↔
      ∃ lba, c = .loadElf lba ∧ elfAccepted (elfHeader (dev.readLBA lba)) = false := by
  constructor
  · rintro ⟨k', result, run, failed, harmless⟩
    cases c with
    | fork regs =>
      simp only [Spawn.run, Option.map_eq_some_iff] at run
      obtain ⟨r, forked, eq⟩ := run
      cases eq
      change taskCount ≤ r.2.rax.toNat at failed
      rw [fork_full full forked] at failed
      exact absurd failed (by decide)
    | loadElf lba =>
      refine ⟨lba, rfl, Bool.eq_false_iff.mpr fun accepted => ?_⟩
      exact loadElf_harms (full 0 (by decide)) heap accepted run harmless
  · rintro ⟨lba, rfl, rejected⟩
    exact ⟨k, 0, loadElf_rejected rejected, rfl, fun _ _ => rfl, rfl, rfl, rfl⟩

/-! ## A full table -/

/-- Slot 1 runs a program with one page of code, and slot 2 is current. -/
def fullKernel : Kernel :=
  { pagesKernel codePage with
    taskManager := fun t =>
      if t ≤ 1 then (pagesKernel codePage).taskManager t
      else { shellTask with basePML4 := 0x5000, ownerPID := 0 }
    curPid := 2 }

theorem fullKernel_full : TableFull fullKernel := by
  intro t _
  unfold fullKernel
  dsimp only
  split
  next low =>
    obtain rfl | rfl : t = 0 ∨ t = 1 := by omega
    · rfl
    · rfl
  next => rfl

theorem pid_exhaustion_rejected :
    ∃ k' result, (Spawn.loadElf 0).run 0 noDevices fullKernel = some (k', result) ∧
      (Spawn.loadElf 0).Failed result ∧ Harmless fullKernel k' :=
  (pid_exhaustion_harmless fullKernel_full (by decide +kernel) (.loadElf 0)).mpr
    ⟨0, rfl, by decide +kernel⟩

/-- The program in slot 1 gets the address space that was meant for the child. -/
theorem pid_exhaustion_harms : ¬∀ (fuel : Nat) (dev : Devices) (k : Kernel), TableFull k →
    ∀ c : Spawn, ∃ k' result, c.run fuel dev k = some (k', result) ∧ c.Failed result ∧
      Harmless k k' := by
  intro claimed
  have forked : ((Spawn.fork zeroRegisters).run 0 noDevices fullKernel).map
      (fun r => (r.1.taskManager 1).basePML4) = some 0xD000 := by decide +kernel
  have space : (fullKernel.taskManager 1).basePML4 = 0x5000 := by decide +kernel
  obtain ⟨k', result, run, -, harmless⟩ := claimed 0 noDevices fullKernel fullKernel_full
    (.fork zeroRegisters)
  rw [run] at forked
  have moved : (k'.taskManager 1).basePML4 = 0xD000 := Option.some.inj forked
  rw [harmless.others 1 (by decide), space] at moved
  exact absurd moved (by decide)

end ChudOS
