import ChudOS.InterruptOutcomes
import ChudOS.MemoryCalls

/-!
# Handlers as sequences of memory calls

Whatever a handler does to physical memory it does by calls of the functions of `Memory.c` and by
writes to RAM, so that a run of the kernel is a run of the memory system.
-/

namespace ChudOS

open Transition

variable {k k' : Kernel} {m m' : Memory} {i : Interrupt} {frame frame' : InterruptRegisters}
  {pid n fuel : Nat} {a : U64} {dev : Devices}

/-! ## Allocation and loading -/

theorem kernelMalloc_calls (h : kernelMalloc k = some (k', a)) : MemoryCalls k.mem k'.mem := by
  simp only [kernelMalloc, Option.bind_eq_bind, Option.bind_eq_some_iff, Prod.exists] at h
  obtain ⟨m, d, b, hm, h⟩ := h
  cases h
  exact malloc_calls hm

theorem kernelCreateUserMemory_calls (h : kernelCreateUserMemory k = some (k', a)) :
    MemoryCalls k.mem k'.mem := by
  simp only [kernelCreateUserMemory, Option.bind_eq_bind, Option.bind_eq_some_iff,
    Prod.exists] at h
  obtain ⟨m, d, b, hm, h⟩ := h
  cases h
  exact createUserMemory_calls hm

theorem mallocKernelStack_calls (h : mallocKernelStack k = some (k', a)) :
    MemoryCalls k.mem k'.mem := by
  simp only [mallocKernelStack, Option.bind_eq_bind, Option.bind_eq_some_iff, Prod.exists] at h
  obtain ⟨k₁, _, h₁, k₂, _, h₂, k₃, _, h₃, k₄, _, h₄, h₅⟩ := h
  exact (kernelMalloc_calls h₁).trans <| (kernelMalloc_calls h₂).trans <|
    (kernelMalloc_calls h₃).trans <| (kernelMalloc_calls h₄).trans (kernelMalloc_calls h₅)

theorem allocSegment_calls {permissions : PagePermissions}
    (h : allocSegment k pid permissions a n = some k') : MemoryCalls k.mem k'.mem := by
  induction n generalizing k a with
  | zero =>
    cases h
    exact .refl
  | succ n ih =>
    simp only [allocSegment, Option.bind_eq_bind, Option.bind_eq_some_iff, Prod.exists] at h
    obtain ⟨m, b, hm, h⟩ := h
    exact (allocFound_calls hm).trans (ih h)

theorem loadSegment_calls {lba : U64} {h : ProgramHeader64}
    (hl : loadSegment k dev lba pid h = some k') : MemoryCalls k.mem k'.mem := by
  unfold loadSegment at hl
  split at hl
  · simp only [Option.bind_eq_bind, Option.bind_eq_some_iff] at hl
    obtain ⟨k₁, h₁, m, hm, hl⟩ := hl
    cases hl
    have allocated := allocSegment_calls h₁
    split at allocated <;> exact allocated.trans (.write (readSegment_eq hm))
  · cases hl
    exact .refl

theorem loadSegments_calls {lba : U64} {hs : List ProgramHeader64}
    (h : loadSegments k dev lba pid hs = some k') : MemoryCalls k.mem k'.mem := by
  induction hs generalizing k with
  | nil =>
    cases h
    exact .refl
  | cons x xs ih =>
    simp only [loadSegments, Option.bind_eq_bind, Option.bind_eq_some_iff] at h
    obtain ⟨k₁, h₁, h⟩ := h
    exact (loadSegment_calls h₁).trans (ih h)

theorem allocStack_calls (h : allocStack k pid = some k') : MemoryCalls k.mem k'.mem := by
  simp only [allocStack, Option.bind_eq_bind, Option.bind_eq_some_iff, Prod.exists] at h
  obtain ⟨m, stack, hm, m', hm', h⟩ := h
  cases h
  exact (allocFound_calls hm).trans (.write (copyOut_eq hm'))

theorem pushStrings_eq {argv : List (List U8)} {stack stack' : U64} {pointers : List U64}
    (h : pushStrings m stack argv = some (m', stack', pointers)) : m' = { m with ram := m'.ram } := by
  induction argv generalizing m' stack' pointers with
  | nil =>
    cases h
    rfl
  | cons s argv ih =>
    simp only [pushStrings, Option.bind_eq_bind, Option.bind_eq_some_iff, Prod.exists] at h
    obtain ⟨m₁, stack₁, pointers₁, h₁, m₂, h₂, h⟩ := h
    cases h
    rw [copyOut_eq h₂, ih h₁]

theorem pushWords_eq {xs : List U64} {stack stack' : U64}
    (h : pushWords m stack xs = some (m', stack')) : m' = { m with ram := m'.ram } := by
  induction xs generalizing m' stack' with
  | nil =>
    cases h
    rfl
  | cons x xs ih =>
    simp only [pushWords, Option.bind_eq_bind, Option.bind_eq_some_iff, Prod.exists] at h
    obtain ⟨m₁, stack₁, h₁, m₂, h₂, h⟩ := h
    cases h
    rw [store64_eq h₂, ih h₁]

theorem setupTaskStack_calls {argv : List (List U8)} (h : setupTaskStack k pid argv = some k') :
    MemoryCalls k.mem k'.mem := by
  simp only [setupTaskStack, Option.bind_eq_bind, Option.bind_eq_some_iff, Prod.exists] at h
  obtain ⟨m₁, stack₁, pointers, h₁, m₂, stack₂, h₂, m₃, h₃, h⟩ := h
  cases h
  have entered : MemoryCalls k.mem (k.enter pid).mem := .setCr3 _
  have pushed := ((entered.trans (.write (pushStrings_eq h₁))).trans
    (.write (pushWords_eq h₂))).trans (.write (store64_eq h₃))
  exact pushed.trans (.setCr3 _)

theorem loadElfStrict_calls {lba newPML4 : U64} {argv : List (List U8)}
    (h : loadElfStrict k dev lba pid newPML4 argv = some k') : MemoryCalls k.mem k'.mem := by
  unfold loadElfStrict at h
  dsimp only at h
  split at h
  · simp only [Option.bind_eq_bind, Option.bind_eq_some_iff, Prod.exists] at h
    obtain ⟨k₁, h₁, k₂, h₂, k₃, stack, h₃, k₄, h₄, h⟩ := h
    cases h
    have selected : MemoryCalls k.mem (k.setCr3 newPML4).mem := .setCr3 _
    have stack := allocStack_calls h₁
    have segments := loadSegments_calls h₂
    have kernelStack := mallocKernelStack_calls h₃
    have arguments := setupTaskStack_calls h₄
    exact (((selected.trans stack).trans segments).trans kernelStack).trans
      (arguments.trans (.setCr3 _))
  · cases h
    exact .refl

/-! ## Page faults and tear-down -/

/-- The first page of the stack goes to the frame found, and so do the next ones. -/
theorem growStack_calls {page : PageDetails} (found : page.physicalAddress = findNextFreePhysical k.mem)
    (h : growStack k pid page n = some k') : MemoryCalls k.mem k'.mem := by
  induction n generalizing k page with
  | zero =>
    cases h
    exact .refl
  | succ n ih =>
    simp only [growStack, Option.bind_eq_bind, Option.bind_eq_some_iff, Prod.exists] at h
    obtain ⟨m, a, hm, h⟩ := h
    obtain ⟨permissions, virtualAddress, physicalAddress⟩ := page
    obtain rfl : physicalAddress = _ := found
    have rest := ih rfl h
    exact (allocFound_calls hm).trans rest

theorem demandPage_calls (h : demandPage k pid a = some k') : MemoryCalls k.mem k'.mem := by
  unfold demandPage at h
  dsimp only at h
  split at h
  · exact growStack_calls rfl h
  · simp only [Option.bind_eq_bind, Option.bind_eq_some_iff, Prod.exists] at h
    obtain ⟨m, b, hm, h⟩ := h
    cases h
    exact allocFound_calls hm

theorem freeTaskMemory_calls (h : freeTaskMemory fuel k pid = some k') :
    MemoryCalls k.mem k'.mem := by
  simp only [freeTaskMemory, Option.bind_eq_bind, Option.bind_eq_some_iff] at h
  obtain ⟨m, hm, h⟩ := h
  split at h <;> cases h
  · exact teardown_calls hm
  · exact (teardown_calls hm).trans (.setCr3 _)

theorem taskSwitch_calls (h : MemoryCalls m k.mem) :
    MemoryCalls m (taskSwitch k pid frame).1.mem := h.trans (.setCr3 _)

theorem forceSwitch_calls (h : MemoryCalls m k.mem) :
    MemoryCalls m (forceSwitch k frame).1.mem := h.trans (.setCr3 _)

theorem signalOwner_mem (k : Kernel) (origin : Task) (reason : U32) (ret : U64) :
    (signalOwner k origin reason ret).mem = k.mem := by
  unfold signalOwner
  dsimp only
  split_ifs <;> rfl

theorem handlePageFault_calls (h : handlePageFault fuel k frame = some (k', frame')) :
    MemoryCalls k.mem k'.mem := by
  unfold handlePageFault at h
  dsimp only at h
  split at h
  next =>
    simp only [Option.bind_eq_bind, Option.bind_eq_some_iff, Option.some.injEq] at h
    obtain ⟨k₁, h₁, h⟩ := h
    obtain rfl : (forceSwitch k₁ frame).1 = k' := congrArg Prod.fst h
    have freed := freeTaskMemory_calls h₁
    rw [signalOwner_mem] at freed
    exact forceSwitch_calls freed
  next =>
    split at h
    · have walked : MemoryCalls k.mem (calculatePagePhysicalEntryAddress
          (memSetCr3 k.mem ((k.setRegisters k.curPid frame).taskManager k.curPid).basePML4)
          (extractPageEntries (frame.cr2 &&& ~~~0xFFF))).1 :=
        (MemoryCalls.setCr3 _).trans (.walk _)
      split at h
      · simp only [Option.bind_eq_bind, Option.bind_eq_some_iff] at h
        obtain ⟨k₁, h₁, h⟩ := h
        cases h
        have paged := demandPage_calls h₁
        exact walked.trans paged
      · simp only [Option.bind_eq_bind, Option.bind_eq_some_iff] at h
        obtain ⟨m, hm, h⟩ := h
        cases h
        exact walked.trans (.call (.resolveCoW _ _) hm)
    · simp only [Option.bind_eq_bind, Option.bind_eq_some_iff, Prod.exists] at h
      obtain ⟨m, a, hm, h⟩ := h
      cases h
      exact allocFound_calls hm

theorem retireKilled_calls (h : retireKilled fuel k pid = some k') :
    MemoryCalls k.mem k'.mem := by
  unfold retireKilled at h
  dsimp only at h
  split at h
  · have freed := freeTaskMemory_calls h
    exact freed
  · cases h
    exact .refl

theorem timerInterrupt_calls (h : timerInterrupt fuel k frame = some (k', frame')) :
    MemoryCalls k.mem k'.mem := by
  unfold timerInterrupt at h
  dsimp only at h
  split at h
  · cases h
    exact .refl
  split at h
  · simp only [Option.bind_eq_bind, Option.bind_eq_some_iff, Option.some.injEq] at h
    obtain ⟨k₁, h₁, h⟩ := h
    obtain rfl : (taskSwitch k₁ _ frame).1 = k' := congrArg Prod.fst h
    have retired := retireKilled_calls h₁
    exact taskSwitch_calls retired
  · cases h
    exact .refl

theorem fatalException_calls {garbage : U64}
    (h : fatalException k frame garbage = some (k', frame')) : MemoryCalls k.mem k'.mem := by
  unfold fatalException at h
  dsimp only at h
  split at h
  · cases h
  obtain rfl : (forceSwitch _ _).1 = k' := congrArg Prod.fst (Option.some.inj h)
  exact forceSwitch_calls .refl

theorem handleKey_calls {keycode : U8} {release : Bool}
    (h : handleKey k keycode release = some k') : MemoryCalls k.mem k'.mem := by
  unfold handleKey at h
  split_ifs at h
  case pos | pos => cases h; exact .refl
  · cases h
    unfold typeKey
    dsimp only
    split_ifs <;> exact .refl
  · simp only [deliverLine, Option.bind_eq_bind, Option.bind_eq_some_iff] at h
    obtain ⟨m, hm, h⟩ := h
    cases h
    have copied := MemoryCalls.write (copyOut_eq hm)
    exact (MemoryCalls.setCr3 (k.taskManager (getWaitingProgram k)).basePML4).trans
      (copied.trans (.setCr3 _))
  all_goals cases h; exact .refl

theorem handleKeyboardInterrupt_calls {status scancode : U8}
    (h : handleKeyboardInterrupt k frame status scancode = some (k', frame')) :
    MemoryCalls k.mem k'.mem := by
  unfold handleKeyboardInterrupt at h
  dsimp only at h
  split at h
  · cases h
    exact .refl
  · simp only [Option.bind_eq_bind, Option.bind_eq_some_iff] at h
    obtain ⟨k₁, h₁, h⟩ := h
    cases h
    have handled := handleKey_calls h₁
    exact handled

/-! ## Signals -/

theorem taskStackPush_calls {x : U64} (h : taskStackPush k pid x = some k') :
    MemoryCalls k.mem k'.mem := by
  unfold taskStackPush at h
  dsimp only at h
  split at h
  · simp only [Option.bind_eq_bind, Option.bind_eq_some_iff] at h
    obtain ⟨m, hm, h⟩ := h
    cases h
    exact .write (store64_eq hm)
  · cases h
    exact .refl

theorem taskStackPushAll_calls {xs : List U64} (h : taskStackPushAll k pid xs = some k') :
    MemoryCalls k.mem k'.mem := by
  induction xs generalizing k with
  | nil =>
    cases h
    exact .refl
  | cons x xs ih =>
    simp only [taskStackPushAll, Option.bind_eq_bind, Option.bind_eq_some_iff] at h
    obtain ⟨k₁, h₁, h⟩ := h
    exact (taskStackPush_calls h₁).trans (ih h)

/-- Popping reads memory only. -/
theorem taskStackPopAll_mem {xs : List U64} (h : taskStackPopAll k pid n = some (k', xs)) :
    k'.mem = k.mem := by
  induction n generalizing k xs with
  | zero =>
    cases h
    rfl
  | succ n ih =>
    simp only [taskStackPopAll, Option.bind_eq_bind, Option.bind_eq_some_iff, Prod.exists] at h
    obtain ⟨k₁, x, h₁, k₂, ys, h₂, h⟩ := h
    cases h
    rw [ih h₂]
    unfold taskStackPop at h₁
    dsimp only at h₁
    split at h₁
    · simp only [Option.bind_eq_bind, Option.bind_eq_some_iff] at h₁
      obtain ⟨y, -, h₁⟩ := h₁
      cases h₁
      rfl
    · cases h₁
      rfl

variable (k') in
/-- In another address space for a while. -/
theorem MemoryCalls.selected {c : Prop} [Decidable c] {b : U64}
    (h : MemoryCalls (if c then k else k.setCr3 a).mem k'.mem) :
    MemoryCalls k.mem (if c then k' else k'.setCr3 b).mem := by
  split_ifs at h ⊢
  · exact h
  · exact (MemoryCalls.setCr3 a).trans (h.trans (.setCr3 b))

theorem establishSignalStack_calls (h : establishSignalStack k pid = some k') :
    MemoryCalls k.mem k'.mem := by
  unfold establishSignalStack at h
  dsimp only at h
  split at h
  · simp only [Option.bind_eq_bind, Option.bind_eq_some_iff] at h
    obtain ⟨k₁, h₁, h⟩ := h
    cases h
    have pushed := taskStackPushAll_calls h₁
    exact MemoryCalls.selected (k₁.setRegisters pid _) pushed
  · cases h
    exact .refl

theorem signalReturn_calls (h : signalReturn k pid = some k') : MemoryCalls k.mem k'.mem := by
  unfold signalReturn at h
  dsimp only at h
  split at h
  · simp only [Option.bind_eq_bind, Option.bind_eq_some_iff, Prod.exists] at h
    obtain ⟨k₁, popped, h₁, h⟩ := h
    cases h
    have popped := MemoryCalls.of_eq (taskStackPopAll_mem h₁)
    exact MemoryCalls.selected (k₁.setRegisters pid _) popped
  · cases h
    exact .refl

theorem sendSignal_calls {ident : U32} {a b c d : U64}
    (h : sendSignal k pid ident a b c d = some k') : MemoryCalls k.mem k'.mem := by
  unfold sendSignal at h
  dsimp only at h
  split at h
  · cases h
    exact .refl
  split at h
  · simp only [Option.bind_eq_bind, Option.bind_eq_some_iff] at h
    obtain ⟨k₁, h₁, h⟩ := h
    cases h
    have established := establishSignalStack_calls h₁
    exact established
  · cases h
    exact .refl

/-! ## System calls -/

section Syscalls

variable {regs : InterruptRegisters} {r : SyscallResult}

theorem signalParent_calls {owner : Nat} {ret : U64} (h : signalParent k owner ret = some k') :
    MemoryCalls k.mem k'.mem := by
  unfold signalParent at h
  split at h
  · exact sendSignal_calls h
  · cases h
    exact .refl

theorem syscallExit_calls (h : syscallExit k regs = some r) : MemoryCalls k.mem r.kernel.mem := by
  simp only [syscallExit, Option.bind_eq_bind, Option.bind_eq_some_iff] at h
  obtain ⟨k₁, h₁, h⟩ := h
  cases h
  have signalled := signalParent_calls h₁
  exact forceSwitch_calls (k := killTask k₁ k.curPid) signalled

theorem syscallOpen_calls (h : syscallOpen fuel dev k regs = some r) :
    MemoryCalls k.mem r.kernel.mem := by
  simp only [syscallOpen, Option.bind_eq_bind, Option.bind_eq_some_iff] at h
  obtain ⟨path, -, h⟩ := h
  split at h <;> (cases h; exact .refl)

theorem syscallWrite_calls (h : syscallWrite k regs = some r) :
    MemoryCalls k.mem r.kernel.mem := by
  simp only [syscallWrite, Option.bind_eq_bind, Option.bind_eq_some_iff] at h
  obtain ⟨bytes, -, h⟩ := h
  cases h
  exact .refl

theorem syscallRead_calls (h : syscallRead dev k regs = some r) :
    MemoryCalls k.mem r.kernel.mem := by
  unfold syscallRead at h
  dsimp only at h
  split at h
  · cases h
    exact forceSwitch_calls .refl
  split at h
  · simp only [Option.bind_eq_bind, Option.bind_eq_some_iff] at h
    obtain ⟨m, hm, h⟩ := h
    cases h
    exact .write (copyOut_eq hm)
  · cases h
    exact .refl

theorem shareEntry_calls (m : Memory) (v : U64) : MemoryCalls m (shareEntry m v).1 :=
  (MemoryCalls.walk v).trans (.setEntry _ _)

theorem forkPage_calls {cur child : Nat} (h : forkPage k cur child a = some k') :
    MemoryCalls k.mem k'.mem := by
  simp only [forkPage, Option.bind_eq_bind, Option.bind_eq_some_iff, Prod.exists] at h
  obtain ⟨m, b, hm, h⟩ := h
  cases h
  have shared : MemoryCalls k.mem (shareEntry (k.enter cur).mem a).1 :=
    (MemoryCalls.setCr3 _).trans (shareEntry_calls _ a)
  exact (shared.trans (.setCr3 _)).trans (allocPage_calls hm)

theorem forkPages_calls {cur child : Nat} {step : U64}
    (h : forkPages k cur child step a n = some k') : MemoryCalls k.mem k'.mem := by
  induction n generalizing k a with
  | zero =>
    cases h
    exact .refl
  | succ n ih =>
    simp only [forkPages, Option.bind_eq_bind, Option.bind_eq_some_iff] at h
    obtain ⟨k₁, h₁, h⟩ := h
    exact (forkPage_calls h₁).trans (ih h)

theorem shareRegions_calls {cur child : Nat} (h : shareRegions k cur child = some k') :
    MemoryCalls k.mem k'.mem := by
  simp only [shareRegions, Option.bind_eq_bind, Option.bind_eq_some_iff] at h
  obtain ⟨k₁, h₁, h⟩ := h
  exact (forkPages_calls h₁).trans (forkPages_calls h)

theorem giveKernelStack_calls (h : giveKernelStack k pid = some k') :
    MemoryCalls k.mem k'.mem := by
  simp only [giveKernelStack, Option.bind_eq_bind, Option.bind_eq_some_iff, Prod.exists] at h
  obtain ⟨k₁, stack, h₁, h⟩ := h
  cases h
  have given := mallocKernelStack_calls h₁
  exact given

theorem registerTask_mem (k : Kernel) (base entry count : U64) (ticks : U8) (stack pml4 : U64) :
    (registerTask k base entry count ticks stack pml4).1.mem = k.mem := by
  unfold registerTask
  dsimp only
  split <;> rfl

theorem createChild_calls {child : Nat} (h : createChild k regs = some (k', child)) :
    MemoryCalls k.mem k'.mem := by
  simp only [createChild, Option.bind_eq_bind, Option.bind_eq_some_iff, Prod.exists] at h
  obtain ⟨k₁, pml4, h₁, h⟩ := h
  cases h
  have created := kernelCreateUserMemory_calls h₁
  rw [Kernel.setTask_mem, registerTask_mem] at created
  exact created

theorem syscallFork_calls (h : syscallFork k regs = some r) : ∃ k₁ child,
    createChild k regs = some (k₁, child) ∧ MemoryCalls k₁.mem r.kernel.mem := by
  simp only [syscallFork, Option.bind_eq_bind, Option.bind_eq_some_iff, Prod.exists] at h
  obtain ⟨k₁, child, h₁, k₂, h₂, k₃, h₃, h⟩ := h
  cases h
  have shared := shareRegions_calls h₂
  have given := giveKernelStack_calls h₃
  exact ⟨k₁, child, h₁, ((shared.trans (.setCr3 _)).trans given).trans (.setCr3 _)⟩

theorem syscallExecve_calls (h : syscallExecve fuel dev k regs = some r) :
    MemoryCalls k.mem r.kernel.mem := by
  unfold syscallExecve at h
  dsimp only at h
  split at h
  · cases h
    exact .refl
  simp only [Option.bind_eq_bind, Option.bind_eq_some_iff, Prod.exists] at h
  obtain ⟨k₁, pml4, h₁, n, -, k₂, h₂, m, hm, h⟩ := h
  cases h
  have loaded := loadElfStrict_calls h₂
  exact forceSwitch_calls <| ((kernelCreateUserMemory_calls h₁).trans loaded).trans
    (freeTaskMemoryByPml4_calls hm)

theorem syscallWait_calls : MemoryCalls k.mem (syscallWait k regs).kernel.mem := by
  unfold syscallWait
  dsimp only
  split
  · exact .refl
  · exact forceSwitch_calls .refl

theorem syscallGetdents_calls (h : syscallGetdents fuel dev k regs = some r) :
    MemoryCalls k.mem r.kernel.mem := by
  unfold syscallGetdents at h
  split at h
  · cases h
    exact .refl
  · simp only [Option.bind_eq_bind, Option.bind_eq_some_iff] at h
    obtain ⟨n, -, h⟩ := h
    cases h
    exact .refl

theorem syscallSysinfo_calls (h : syscallSysinfo k regs = some r) :
    MemoryCalls k.mem r.kernel.mem := by
  simp only [syscallSysinfo, Option.bind_eq_bind, Option.bind_eq_some_iff] at h
  obtain ⟨m, hm, h⟩ := h
  cases h
  exact .write (copyOut_eq hm)

theorem syscallSigret_calls (h : syscallSigret k = some r) : MemoryCalls k.mem r.kernel.mem := by
  simp only [syscallSigret, Option.bind_eq_bind, Option.bind_eq_some_iff] at h
  obtain ⟨k₁, h₁, h⟩ := h
  cases h
  exact signalReturn_calls h₁

theorem registerSignal_mem (k : Kernel) (pid : Nat) (ident : U32) (entry : U64) :
    (registerSignal k pid ident entry).mem = k.mem := by
  unfold registerSignal
  dsimp only
  split <;> rfl

theorem dispatchSyscall_calls (h : dispatchSyscall fuel dev k regs = some r) :
    MemoryCalls k.mem r.kernel.mem := by
  unfold dispatchSyscall at h
  dsimp only at h
  split at h
  next => exact syscallExit_calls h
  next => exact syscallOpen_calls h
  next => exact syscallWrite_calls h
  next => exact syscallRead_calls h
  next =>
    obtain ⟨k₁, child, created, rest⟩ := syscallFork_calls h
    exact (createChild_calls created).trans rest
  next => exact syscallExecve_calls h
  next => exact Option.some.inj h ▸ syscallWait_calls
  next => cases h; exact .refl
  next => cases h; exact .refl
  next => cases h; exact .refl
  next => exact syscallGetdents_calls h
  next => exact syscallSysinfo_calls h
  next =>
    cases h
    exact .of_eq (registerSignal_mem k _ _ _)
  next => exact syscallSigret_calls h
  next => cases h; exact .refl

theorem handleSyscall_calls (h : handleSyscall fuel dev k frame = some (k', frame')) :
    MemoryCalls k.mem k'.mem := by
  simp only [handleSyscall, Option.bind_eq_bind, Option.bind_eq_some_iff] at h
  obtain ⟨r, hr, h⟩ := h
  have dispatched := dispatchSyscall_calls hr
  have entered := (MemoryCalls.setCr3 _).trans dispatched
  split at h <;> (cases h; exact entered)

end Syscalls

/-! ## Runs -/

theorem handleInterrupt_calls (h : handleInterrupt k i = some (k', frame)) :
    MemoryCalls k.mem k'.mem := by
  unfold handleInterrupt at h
  split at h
  next => exact timerInterrupt_calls h
  next => exact handleSyscall_calls h
  next => exact handlePageFault_calls h
  next => exact fatalException_calls h
  next => exact fatalException_calls h
  next => exact handleKeyboardInterrupt_calls h

theorem kernelStep_calls {e : Event} (h : KernelStep k e k') : MemoryCalls k.mem k'.mem := by
  cases h with
  | interrupt handled => exact handleInterrupt_calls handled
  | user => exact .write rfl

/-- A run of the kernel is a run of the memory system. -/
theorem run_calls {es : List Event} (h : Run kernelSystem k es k') : MemoryCalls k.mem k'.mem := by
  induction h with
  | nil => exact .refl
  | cons step _ ih => exact (kernelStep_calls step).trans ih

end ChudOS
