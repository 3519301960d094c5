import ChudOS.LowLevel.Teardown
import ChudOS.SpaceReclaim

/-!
# `EXECVE` of a rejected image

The wrapper around `LoadElfStrict` drops its result, and the system call tears the caller's address
space down whether a new one has been installed or not.

## Main definitions

* `RejectedExecve` — a descriptor of an executable file is open, and its image is rejected.
* `CallerUnchanged` — what the caller would find if the call had failed and done nothing else.
-/

namespace ChudOS

open Transition

variable {k k' : Kernel} {i : Interrupt} {frame : InterruptRegisters} {roots : Set Nat}

/-- The frame of the PML4 of the current task. -/
def callerRoot (k : Kernel) : Nat := frameOf (k.taskManager k.curPid).basePML4

/-- `EXECVE` of an open executable file whose image `LoadElfStrict` rejects. -/
structure RejectedExecve (k : Kernel) (i : Interrupt) : Prop where
  syscall : i.cause = .syscall
  execve : i.frame.rax = 5
  used : ((k.taskManager k.curPid).descriptors i.frame.rdx.toNat).used = true
  executable : (i.dev.readEntry
    ((k.taskManager k.curPid).descriptors i.frame.rdx.toNat).gemfsIndex).flags &&& 0b1000 = 0b1000
  rejected : elfAccepted (execveHeader k i) = false

/-- After the call the caller has the page tables, regions, pages and registers it had before,
except for the result in `rax`, and can go on. -/
structure CallerUnchanged (k : Kernel) (i : Interrupt) (k' : Kernel) : Prop where
  pml4 : (k'.taskManager k.curPid).basePML4 = (k.taskManager k.curPid).basePML4
  tables : ∀ p j, p.length = 3 → k'.mem.wordAt (callerRoot k) p j = k.mem.wordAt (callerRoot k) p j
  regions : (k'.taskManager k.curPid).memoryData = (k.taskManager k.curPid).memoryData
  pages : ∀ p j e f, UserPath p → k.mem.wordAt (callerRoot k) p j = some e → link e = some f →
    k'.mem.ram f = k.mem.ram f
  registers : { (k'.taskManager k.curPid).savedRegisters with rax := i.frame.rax } = i.frame
  runnable : (k'.taskManager k.curPid).exist = true ∧
    (k'.taskManager k.curPid).processState = .ready

/-- The state a program calls from: sound page tables with the direct map in them, a PML4 of its
own, and memory for a new address space. -/
structure CallReady (k : Kernel) (i : Interrupt) (roots : Set Nat) : Prop where
  spaces : SpacesReady (enteredSyscall k i) roots
  kernel : frameOf k.mem.paging.kernelPML4Physical ∈ roots
  user : frameOf k.mem.paging.kernelPML4Physical ≠ callerRoot k
  callerMap : DirectMapped k.mem (callerRoot k)
  kernelMap : DirectMapped k.mem (frameOf k.mem.paging.kernelPML4Physical)

/-- The new address space of the call leaves the others in the state to be torn down. -/
theorem kernelCreateUserMemory_spec {a : U64} (ready : SpacesReady k roots)
    (h : kernelCreateUserMemory k = some (k', a)) :
    Forest k'.mem roots ∧ KeepsTables roots k.mem k'.mem ∧
      Memory.SameLayout k.mem k'.mem := by
  simp only [kernelCreateUserMemory, Option.bind_eq_bind, Option.bind_eq_some_iff,
    Prod.exists] at h
  obtain ⟨m, d, a, created, h⟩ := h
  cases h
  obtain ⟨m', a, spec, space, -, -, tables⟩ := createUserMemory_spec (k := 0) ready.forest
    ready.current ready.selected ready.kernelPages ready.free
  rw [created] at spec
  cases spec
  exact ⟨space.keeps.forest, tables, space.keeps.layout⟩

theorem DirectMapped.keep {m m' : Memory} {root : Nat} (h : DirectMapped m root)
    (keeps : KeepsTables roots m m') (layout : Memory.SameLayout m m') (hr : root ∈ roots) :
    DirectMapped m' root := by
  intro f hf
  obtain ⟨pt, hpt⟩ := h f (layout.frameCount_eq ▸ hf)
  exact ⟨pt, keeps root hr _ pt (pathOf_length _).le hpt⟩

theorem loadElfStrict_rejected {dev : Devices} {lba newPML4 : U64} {pid : Nat}
    {argv : List (List U8)} (rejected : elfAccepted (elfHeader (dev.readLBA lba)) = false) :
    loadElfStrict k dev lba pid newPML4 argv = some k := by
  unfold loadElfStrict
  dsimp only
  rw [rejected, if_neg Bool.false_ne_true]

/-- A rejected call comes down to a tear-down of the caller's space. -/
theorem syscallExecve_rejected {r : SyscallResult} {fuel : Nat} {dev : Devices}
    {regs : InterruptRegisters}
    (used : ((k.taskManager k.curPid).descriptors regs.rdx.toNat).used = true)
    (executable : (dev.readEntry
      ((k.taskManager k.curPid).descriptors regs.rdx.toNat).gemfsIndex).flags &&& 0b1000 = 0b1000)
    (rejected : elfAccepted (elfHeader (dev.readLBA (dev.blockToLBA (dev.readEntry
      ((k.taskManager k.curPid).descriptors regs.rdx.toNat).gemfsIndex).start))) = false)
    (h : syscallExecve fuel dev k regs = some r) :
    ∃ k₁ a m, kernelCreateUserMemory k = some (k₁, a) ∧
      freeTaskMemoryByPml4 fuel k₁.mem (k.taskManager k.curPid).basePML4 = some m ∧
      r.kernel.mem.ram = m.ram ∧ r.yielded = true := by
  unfold syscallExecve at h
  dsimp only at h
  rw [if_neg (not_or.mpr ⟨by simp [used], not_not.mpr executable⟩)] at h
  simp only [Option.bind_eq_bind, Option.bind_eq_some_iff, Prod.exists] at h
  obtain ⟨k₁, a, created, n, -, k₂, loaded, m, freed, h⟩ := h
  rw [loadElfStrictGemFS, loadElfStrict_rejected rejected] at loaded
  cases loaded
  cases h
  exact ⟨k₁, a, m, created, freed, rfl, rfl⟩

theorem RejectedExecve.entered (call : RejectedExecve k i) :
    RejectedExecve (enteredSyscall k i) i := by
  have descriptors : ((enteredSyscall k i).taskManager k.curPid).descriptors =
      (k.taskManager k.curPid).descriptors := enteredSyscall_field Task.descriptors (fun _ _ => rfl) _
  obtain ⟨syscall, execve, used, executable, rejected⟩ := call
  rw [← descriptors] at used executable
  refine ⟨syscall, execve, used, executable, ?_⟩
  unfold execveHeader at rejected ⊢
  rw [← descriptors] at rejected
  exact rejected

/-- With the direct map in both address spaces the tear-down of the caller's leaves its PML4
empty. -/
theorem freeTaskMemoryByPml4_empties {m m' : Memory} {pml4 : U64} {fuel : Nat}
    (trees : Trees m roots) (hroot : frameOf pml4 ∈ roots)
    (mapped : DirectMapped m (frameOf pml4))
    (kernel : frameOf m.paging.kernelPML4Physical ∈ roots)
    (kernelMap : DirectMapped m (frameOf m.paging.kernelPML4Physical))
    (user : frameOf m.paging.kernelPML4Physical ≠ frameOf pml4)
    (h : freeTaskMemoryByPml4 fuel m pml4 = some m') (j : Fin 512) :
    m'.tables (frameOf pml4) j = 0 := by
  have clearable : Clearable roots (memSetCr3 m pml4) := ⟨trees.of_ram rfl rfl, hroot, mapped⟩
  simp only [freeTaskMemoryByPml4, Option.bind_eq_bind, Option.bind_eq_some_iff] at h
  obtain ⟨m₁, h₁, h⟩ := h
  have empty := teardown_spec clearable kernel kernelMap user h₁ j
  split at h <;> cases h
  · exact empty
  · exact empty

/-- Nothing is left in the PML4 of the caller. -/
theorem execve_empties (ready : CallReady k i roots) (call : RejectedExecve k i)
    (h : handleInterrupt k i = some (k', frame)) (j : Fin 512) :
    k'.mem.tables (callerRoot k) j = 0 := by
  have entered := call.entered
  simp only [handleInterrupt, call.syscall, handleSyscall, Option.bind_eq_bind,
    Option.bind_eq_some_iff] at h
  obtain ⟨r, hr, h⟩ := h
  have dispatched : syscallExecve i.fuel i.dev (enteredSyscall k i) i.frame = some r := by
    have dispatched : dispatchSyscall i.fuel i.dev (enteredSyscall k i) i.frame = some r := hr
    simpa [dispatchSyscall, call.execve] using dispatched
  obtain ⟨k₁, a, m, created, freed, ram, yielded⟩ := syscallExecve_rejected entered.used
    entered.executable entered.rejected dispatched
  rw [if_pos yielded] at h
  obtain rfl : r.kernel = k' := congrArg Prod.fst (Option.some.inj h)
  have pml4 : ((enteredSyscall k i).taskManager (enteredSyscall k i).curPid).basePML4 =
      (k.taskManager k.curPid).basePML4 := enteredSyscall_field Task.basePML4 (fun _ _ => rfl) _
  rw [pml4] at freed
  obtain ⟨forest, tables, layout⟩ := kernelCreateUserMemory_spec ready.spaces created
  have kernelRoot : k₁.mem.paging.kernelPML4Physical = k.mem.paging.kernelPML4Physical := by
    rw [layout.1]
    rfl
  have current : callerRoot k ∈ roots := by
    have current := ready.spaces.current
    rwa [show (enteredSyscall k i).mem.paging.pml4Physical = (k.taskManager k.curPid).basePML4
      from pml4] at current
  have mapped : DirectMapped (enteredSyscall k i).mem (callerRoot k) := ready.callerMap
  have kernelMap : DirectMapped (enteredSyscall k i).mem
      (frameOf k.mem.paging.kernelPML4Physical) := ready.kernelMap
  have empty := freeTaskMemoryByPml4_empties forest.trees current
    (mapped.keep tables layout current) (kernelRoot ▸ ready.kernel)
    (kernelRoot ▸ kernelMap.keep tables layout ready.kernel) (kernelRoot ▸ ready.user) freed j
  unfold Memory.tables at empty ⊢
  rw [ram]
  exact empty

/-- After the call the caller has no pages, be it of its own or of the kernel. -/
theorem execve_unmaps (ready : CallReady k i roots) (call : RejectedExecve k i)
    (h : handleInterrupt k i = some (k', frame)) (v : U64) (j : Fin 512) :
    k'.mem.wordAt (callerRoot k) (pathOf v) j = none := by
  have empty := execve_empties ready call h
  rw [Memory.wordAt_eq, Memory.tableAt, pathOf, RadixTree.tableAt, empty]
  rfl

/-- No rejected `EXECVE` leaves its caller unchanged: its address space is gone. -/
theorem execve_never_atomic (ready : CallReady k i roots) (call : RejectedExecve k i)
    (h : handleInterrupt k i = some (k', frame)) : ¬CallerUnchanged k i k' := by
  intro unchanged
  have bound : 0 < frameCount k.mem := by
    have := ready.spaces.forest.inMemory _
      ⟨_, ready.spaces.current, [], by simp, RadixTree.tableAt_nil⟩
    exact Nat.zero_lt_of_lt this
  obtain ⟨pt, mapped⟩ := ready.callerMap 0 bound
  have before : k.mem.wordAt (callerRoot k) (pathOf (physOf 0 + virtualMemoryBarrier)) 0 =
      some (k.mem.tables pt 0) := by
    rw [Memory.wordAt_eq, mapped, Option.map_some]
  have same := unchanged.tables (pathOf (physOf 0 + virtualMemoryBarrier)) 0 (pathOf_length _)
  rw [before, execve_unmaps ready call h] at same
  cases same

/-! ## A program whose file is no ELF image

The kernel has a PML4 of its own in frame 1, with the direct map in frame 4; the program has one
page of code. -/

def programRam : Nat → Nat → U64
  | 1, 256 => 0x2003
  | 2, 0 => 0x3003
  | 3, 0 => 0x4003
  | 4, i => if i < 32 then physOf i ||| 3 else 0
  | 5, 256 => 0x2003
  | 5, 0 => 0x6007
  | 6, 0 => 0x7007
  | 7, 2 => 0x8007
  | 8, 0 => 0x9007
  | _, _ => 0

def programMemory : Memory where
  ram := programRam
  physFrames f := if f = 9 then ⟨1, 1⟩ else if f < 9 then ⟨0, 0b101⟩ else ⟨0, 0⟩
  totalMem := 0x20000
  availableMem := 0x20000
  physicalPagesUsed := 0
  virtualMemorySize := 64
  paging := ⟨0x5000, 0x5000, 0x1000⟩

/-- Descriptor 3 is open. -/
def programTask : Task :=
  { shellTask with
    basePML4 := 0x5000
    descriptors := fun fd => if fd = 3 then ⟨12, 0, 0, true⟩ else zeroDescriptor }

def programKernel : Kernel :=
  { idleKernel with
    mem := programMemory
    taskManager := fun p => if p = 0 then idleTask else if p = 1 then programTask else zeroTask
    curPid := 1 }

/-- `EXECVE` of a file that is marked executable and holds zeros. -/
def zeroExecve : Interrupt where
  cause := .syscall
  frame := { zeroRegisters with cs := 0x1B, rip := 0x400010, rax := 5, rbx := 0x400800, rdx := 3 }
  dev := { noDevices with readEntry := fun _ => ⟨0, 0, 0b1000⟩ }
  fuel := 8

theorem programMemory_forest : Forest programMemory {r | r ∈ [1, 5]} :=
  .of_reached (by decide +kernel) (by decide +kernel) (by decide)

theorem programKernel_ready : CallReady programKernel zeroExecve {r | r ∈ [1, 5]} where
  spaces :=
    { forest := programMemory_forest
      current := by decide
      selected := rfl
      idle := rfl
      kernelPages := by decide
      free := by
        refine ⟨{10, 11, 12, 13, 14}, by decide, fun f hf => ?_⟩
        have : f = 10 ∨ f = 11 ∨ f = 12 ∨ f = 13 ∨ f = 14 := by simpa using hf
        obtain rfl | rfl | rfl | rfl | rfl := this <;> exact ⟨by decide, by decide⟩
      reserved := by decide }
  kernel := by decide
  user := by decide
  callerMap := .of_isSome (by decide +kernel)
  kernelMap := .of_isSome (by decide +kernel)

theorem zeroExecve_rejected : RejectedExecve programKernel zeroExecve :=
  ⟨rfl, rfl, rfl, rfl, by decide +kernel⟩

theorem zeroExecve_handled : (handleInterrupt programKernel zeroExecve).isSome = true := by
  decide +kernel

theorem execve_never_atomic_zero :
    ¬CallerUnchanged programKernel zeroExecve (answer programKernel zeroExecve).1 :=
  execve_never_atomic programKernel_ready zeroExecve_rejected (handled_answer zeroExecve_handled)

/-- The page of the call itself is no longer mapped. -/
theorem zeroExecve_unmaps :
    ¬∀ (k k' : Kernel) (i : Interrupt) (frame : InterruptRegisters) (roots : Set Nat),
      CallReady k i roots → RejectedExecve k i → handleInterrupt k i = some (k', frame) →
        CallerUnchanged k i k' := by
  intro claimed
  have handled := handled_answer zeroExecve_handled
  have unchanged := claimed _ _ _ _ _ programKernel_ready zeroExecve_rejected handled
  have same := unchanged.tables (pathOf zeroExecve.frame.rip) (leafIndex zeroExecve.frame.rip) rfl
  have before : programKernel.mem.wordAt (callerRoot programKernel)
      (pathOf zeroExecve.frame.rip) (leafIndex zeroExecve.frame.rip) = some 0x9007 := by
    decide +kernel
  rw [before, execve_unmaps programKernel_ready zeroExecve_rejected handled] at same
  cases same

end ChudOS
