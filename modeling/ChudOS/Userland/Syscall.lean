import ChudOS.LowLevel.Timer
import ChudOS.Userland.Signals
import ChudOS.ErrorHandling.Exceptions

/-!
# System calls

`handle_syscall`, one definition for each call that does more than set a register. A call returns
the state and the frame of the caller; `yielded` says that it returned early, past the common tail
that saves the frame in the caller's task once more.
-/

namespace ChudOS

/-- Where a system call leaves the kernel. -/
structure SyscallResult where
  kernel : Kernel
  frame : InterruptRegisters
  yielded : Bool

def continues (k : Kernel) (frame : InterruptRegisters) : SyscallResult := ⟨k, frame, false⟩

/-- `ForceSwitch` and an early return. -/
def yields (k : Kernel) (frame : InterruptRegisters) : SyscallResult :=
  let (k, frame) := forceSwitch k frame
  ⟨k, frame, true⟩

variable (fuel : Nat) (dev : Devices)

/-- `EXIT` sends the parent a signal with the exit code. -/
def signalParent (k : Kernel) (owner : Nat) (ret : U64) : Option Kernel :=
  if owner ≠ 0 then sendSignal k owner sigchd 0 ret 0 0 else some k

def syscallExit (k : Kernel) (regs : InterruptRegisters) : Option SyscallResult := do
  let cur := k.curPid
  let k ← signalParent k (k.taskManager cur).ownerPID regs.rbx
  some (yields (killTask k cur) regs)

/-- The bytes before the terminator of a string at a virtual address. -/
def readString (m : Memory) (virtualAddress : U64) : Nat → Option (List U8)
  | 0 => none
  | fuel + 1 => do
    let b ← loadByte m virtualAddress
    if b = 0 then some []
    else
      let bs ← readString m (virtualAddress + 1) fuel
      some (b :: bs)

def setDescriptor (k : Kernel) (pid : Nat) (fd : Nat) (d : FileDescriptor) : Kernel :=
  let t := k.taskManager pid
  k.setTask pid { t with descriptors := Function.update t.descriptors fd d }

def syscallOpen (k : Kernel) (regs : InterruptRegisters) : Option SyscallResult := do
  let cur := k.curPid
  let fd := findFreeFileDescriptor k dev cur
  let k := setDescriptor k cur fd zeroDescriptor
  let path ← readString k.mem regs.rbx fuel
  let index := dev.directoryToIndex path
  if path = [] ∨ index = -1 then some (continues k { regs with rax := -1 })
  else
    let k := setDescriptor k cur fd
      { (k.taskManager cur).descriptors fd with used := true, flags := 0, gemfsIndex := index }
    some (continues k { regs with rax := BitVec.ofNat 64 fd })

/-- The bytes go to the terminal or to the disk, neither of which is part of the state. -/
def syscallWrite (k : Kernel) (regs : InterruptRegisters) : Option SyscallResult := do
  let _ ← copyIn k.mem regs.rbx regs.rcx.toNat
  some (continues k regs)

def syscallRead (k : Kernel) (regs : InterruptRegisters) : Option SyscallResult :=
  let cur := k.curPid
  if regs.rdx = 0 then
    let t := k.taskManager cur
    some (yields (k.setTask cur { t with processState := .waiting, waitingReason := .input }) regs)
  else
    let descriptor := (k.taskManager cur).descriptors regs.rdx.toNat
    if descriptor.used then do
      let bytes := (List.range regs.rcx.toNat).map (dev.readFile descriptor.gemfsIndex)
      let m ← copyOut k.mem regs.rbx bytes
      some (continues { k with mem := m } regs)
    else some (continues k regs)

/-- Marks a page of the current address space read-only and copy-on-write; the result is its new
entry. -/
def shareEntry (m : Memory) (virtualAddress : U64) : Memory × U64 :=
  let (m, slot) := calculatePagePhysicalEntryAddress m (extractPageEntries virtualAddress)
  let m := m.setEntry slot ((m.entry slot ||| cowBit) &&& ~~~2)
  (m, m.entry slot)

/-- The child's page on the parent's frame. -/
def sharedPage (virtualAddress pageData : U64) : PageDetails :=
  ⟨⟨(pageData &&& 0xFFF).setWidth 16, false⟩, virtualAddress, pteAddr pageData⟩

def forkPage (k : Kernel) (cur child : Nat) (virtualAddress : U64) : Option Kernel := do
  let k := k.enter cur
  let (m, pageData) := shareEntry k.mem virtualAddress
  let k := { k with mem := m }.enter child
  let (m, _) ← allocPage k.mem (sharedPage virtualAddress pageData)
  some { k with mem := m }

/-- A copy loop of `fork`; `step` is the distance from one page to the next. -/
def forkPages (k : Kernel) (cur child : Nat) (step virtualAddress : U64) : Nat → Option Kernel
  | 0 => some k
  | n + 1 => do
    let k ← forkPage k cur child virtualAddress
    forkPages k cur child step (virtualAddress + step) n

/-- The child's record: a copy of the parent's, before it gets its own address space. -/
def forkTask (parent : Task) (child : Nat) (regs : InterruptRegisters) : Task :=
  { parent with
    savedRegisters := { regs with rax := 0 }
    processID := child
    processState := .creation
    exist := true }

/-- The child's slot, with an address space of its own. -/
def createChild (k : Kernel) (regs : InterruptRegisters) : Option (Kernel × Nat) := do
  let cur := k.curPid
  let parent := k.taskManager cur
  let (k, child) := registerTask k parent.memoryData.baseVirtualAddress regs.rip
    parent.memoryData.pageCount parent.maxTicks regs.rbp parent.basePML4
  let k := k.setTask child (forkTask (k.taskManager cur) child regs)
  let (k, pml4) ← kernelCreateUserMemory k
  some (k.setTask child { k.taskManager child with basePML4 := pml4, ownerPID := cur }, child)

/-- The code region upwards, the stack region downwards. -/
def shareRegions (k : Kernel) (cur child : Nat) : Option Kernel := do
  let d := (k.taskManager cur).memoryData
  let k ← forkPages k cur child 0x1000 d.baseVirtualAddress d.pageCount.toNat
  forkPages k cur child (-0x1000) d.stackBaseVirtualAddress d.stackPageCount.toNat

def giveKernelStack (k : Kernel) (pid : Nat) : Option Kernel := do
  let (k, kernelStack) ← mallocKernelStack k
  let d := (k.taskManager pid).memoryData
  some (k.setMemoryData pid
    { d with kernelStackPageCount := 5, kernelStackBaseVirtualAddress := kernelStack })

def syscallFork (k : Kernel) (regs : InterruptRegisters) : Option SyscallResult := do
  let cur := k.curPid
  let (k, child) ← createChild k regs
  let regs := { regs with rax := BitVec.ofNat 64 child }
  let k := k.setRegisters cur { (k.taskManager cur).savedRegisters with rax := regs.rax }
  let k ← shareRegions k cur child
  let k ← giveKernelStack (k.enter cur) child
  let k := k.enter cur
  let k := k.setTask child { k.taskManager child with ownerPID := cur, processState := .ready }
  some (continues k regs)

/-- The scan of `argv` for its null pointer. -/
def argvLength (m : Memory) (list : U64) : Nat → Option Nat
  | 0 => none
  | fuel + 1 => do
    let x ← load64 m list
    if x = 0 then some 1 else (argvLength m (list + 8) fuel).map (· + 1)

def syscallExecve (k : Kernel) (regs : InterruptRegisters) : Option SyscallResult := do
  let cur := k.curPid
  let task := k.taskManager cur
  let descriptor := task.descriptors regs.rdx.toNat
  if descriptor.used = false ∨ (dev.readEntry descriptor.gemfsIndex).flags &&& 0b1000 ≠ 0b1000 then
    some (continues k regs)
  else
    let (k, newPML4) ← kernelCreateUserMemory k
    let _ ← argvLength k.mem regs.rbx fuel
    let k := k.setState cur .creation
    let k ← loadElfStrictGemFS k dev descriptor.gemfsIndex k.curPid newPML4 []
    let m ← freeTaskMemoryByPml4 fuel k.mem task.basePML4
    let k := { k with mem := m }
    let regs := (k.taskManager cur).savedRegisters
    let k := k.setTask cur
      { k.taskManager cur with ownerPID := task.ownerPID, processState := .ready }
    some (yields k regs)

/-- After the switch the call runs into the common tail, with the frame of the next task. -/
def syscallWait (k : Kernel) (regs : InterruptRegisters) : SyscallResult :=
  let cur := k.curPid
  if (k.taskManager regs.rbx.toNat).ownerPID ≠ cur then continues k regs
  else
    let k := k.setTask cur { k.taskManager cur with
      processState := .waiting
      waitingReason := .child
      childWaitingReason := regs.rdx.setWidth 32 }
    let (k, frame) := forceSwitch k regs
    continues k frame

def syscallClose (k : Kernel) (regs : InterruptRegisters) : SyscallResult :=
  let fd := regs.rdx.toNat
  let d := (k.taskManager k.curPid).descriptors fd
  continues (setDescriptor k k.curPid fd { d with used := false }) regs

/-- The size of a `struct dent` in the caller's array. -/
def dentSize : U64 := 144

/-- Follows the sibling chain; the caller's array is the source of the copy. -/
def getdentsLoop (m : Memory) (buffer capacity : U64) (sibling : U64) (i : U64) :
    Nat → Option U64
  | 0 => none
  | fuel + 1 =>
    if i < capacity ∧ sibling ≠ 0 then do
      let _ ← copyIn m (buffer + i * dentSize) 144
      getdentsLoop m buffer capacity (dev.readEntry sibling).siblingIndex (i + 1) fuel
    else some i

def syscallGetdents (k : Kernel) (regs : InterruptRegisters) : Option SyscallResult :=
  if ((k.taskManager k.curPid).descriptors regs.rdx.toNat).used = false then
    some (continues k regs)
  else do
    let sibling := (dev.readEntry regs.rdx).siblingIndex
    let i ← getdentsLoop dev k.mem regs.rbx regs.rcx sibling 0 fuel
    some (continues k { regs with rax := i })

/-- The four sizes `sysinfo` reports. -/
def sysinfoWords (m : Memory) (d : TaskMemoryDefinition) : List U64 :=
  [m.totalMem, m.availableMem - m.physicalPagesUsed * 0x1000, m.physicalPagesUsed * 0x1000,
    (d.pageCount + d.stackPageCount + d.kernelStackPageCount) * 0x1000]

def syscallSysinfo (k : Kernel) (regs : InterruptRegisters) : Option SyscallResult := do
  let words := sysinfoWords k.mem (k.taskManager k.curPid).memoryData
  let m ← copyOut k.mem regs.rbx (words.flatMap bytesOf64)
  some (continues { k with mem := m } regs)

def syscallSigret (k : Kernel) : Option SyscallResult := do
  let k ← signalReturn k k.curPid
  some (continues k (k.taskManager k.curPid).savedRegisters)

/-- One system call, by number, from the state in which the caller's frame is saved. -/
def dispatchSyscall (k : Kernel) (regs : InterruptRegisters) : Option SyscallResult :=
  let t := k.taskManager k.curPid
  match regs.rax.toNat with
  | 0x00 => syscallExit k regs
  | 0x01 => syscallOpen fuel dev k regs
  | 0x02 => syscallWrite k regs
  | 0x03 => syscallRead dev k regs
  | 0x04 => syscallFork k regs
  | 0x05 => syscallExecve fuel dev k regs
  | 0x06 => some (syscallWait k regs)
  | 0x07 => some (syscallClose k regs)
  | 0x0A => some (continues (k.setTask k.curPid { t with workingFD := regs.rdx }) regs)
  | 0x0B => some (continues k { regs with rax := t.workingFD })
  | 0x0C => syscallGetdents fuel dev k regs
  | 0x0D => syscallSysinfo k regs
  | 0x0E => some (continues (registerSignal k k.curPid (regs.rbx.setWidth 32) regs.rcx) regs)
  | 0x0F => syscallSigret k
  | _ => some (continues k regs)

def handleSyscall (k : Kernel) (regs : InterruptRegisters) : Option (Kernel × InterruptRegisters) :=
  do
  let cur := k.curPid
  let k := k.setRegisters cur regs
  let r ← dispatchSyscall fuel dev (k.setCr3 (k.taskManager cur).basePML4) regs
  if r.yielded then some (r.kernel, r.frame)
  else some (r.kernel.setRegisters cur r.frame, r.frame)

end ChudOS
