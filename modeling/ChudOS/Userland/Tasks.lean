import ChudOS.LowLevel.Memory

/-!
# Tasks

The task table, `Tasks.c` and the state of the kernel. What the disk and the other devices answer
during a call is a parameter, `Devices`; a theorem that takes one holds whatever they answer.
-/

namespace ChudOS

/-- The frame an interrupt stub pushes and pops. -/
structure InterruptRegisters where
  intNo : U64
  cr2 : U64
  r15 : U64
  r14 : U64
  r13 : U64
  r12 : U64
  r11 : U64
  r10 : U64
  r9 : U64
  r8 : U64
  rdi : U64
  rsi : U64
  rbp : U64
  rbx : U64
  rdx : U64
  rcx : U64
  rax : U64
  errorCode : U64
  rip : U64
  cs : U64
  rflags : U64
  rsp : U64
  ss : U64
  deriving DecidableEq, Repr

structure TSS where
  rsp0 : U64
  rsp1 : U64
  rsp2 : U64
  ist1 : U64
  ist2 : U64
  ist3 : U64
  ist4 : U64
  ist5 : U64
  ist6 : U64
  ist7 : U64
  ioMapBase : U16
  deriving DecidableEq, Repr

structure FileDescriptor where
  gemfsIndex : U64
  flags : U8
  lastPoint : U64
  used : Bool
  deriving DecidableEq, Repr

structure SignalDescriptor where
  registered : Bool
  entry : U64
  deriving DecidableEq, Repr

inductive ProcessState where
  | null | creation | ready | waiting | kill
  deriving DecidableEq, Repr

inductive WaitingReason where
  | null | input | sleep | child
  deriving DecidableEq, Repr

/-- `CHILD_WAIT_EXIT`; the other reasons a task may name in `wait` are never signalled. -/
def childWaitExit : U32 := 0

def sigchd : U32 := 0

structure Task where
  processID : Nat
  memoryData : TaskMemoryDefinition
  savedRegisters : InterruptRegisters
  maxTicks : U8
  usedTicks : U8
  processState : ProcessState
  waitingReason : WaitingReason
  childWaitingReason : U32
  basePML4 : U64
  descriptors : Nat → FileDescriptor
  userTSS : TSS
  ownerPID : Nat
  workingFD : U64
  signals : Nat → SignalDescriptor
  exist : Bool

def zeroRegisters : InterruptRegisters :=
  ⟨0, 0, 0, 0, 0, 0, 0, 0, 0, 0, 0, 0, 0, 0, 0, 0, 0, 0, 0, 0, 0, 0, 0⟩

def zeroTSS : TSS := ⟨0, 0, 0, 0, 0, 0, 0, 0, 0, 0, 0⟩

def zeroDescriptor : FileDescriptor := ⟨0, 0, 0, false⟩

/-- `memset(task, 0, sizeof(Task))`. -/
def zeroTask : Task where
  processID := 0
  memoryData := ⟨0, 0, 0, 0, 0, 0, 0⟩
  savedRegisters := zeroRegisters
  maxTicks := 0
  usedTicks := 0
  processState := .null
  waitingReason := .null
  childWaitingReason := 0
  basePML4 := 0
  descriptors := fun _ => zeroDescriptor
  userTSS := zeroTSS
  ownerPID := 0
  workingFD := 0
  signals := fun _ => ⟨false, 0⟩
  exist := false

/-- The part of a `GemFS_Entry` that system calls look at. -/
structure GemFSEntry where
  start : U64
  siblingIndex : U64
  flags : U8
  deriving DecidableEq, Repr

/-- What the disk answers during one call. -/
structure Devices where
  readEntry : U64 → GemFSEntry
  directoryToIndex : List U8 → U64
  /-- `GemFS_ReadFile`: the bytes of a file, from its index. -/
  readFile : U64 → Nat → U8
  blockToLBA : U64 → U64
  /-- `FLOPPY_Read_LBA`: byte `k` from the sector on. -/
  readLBA : U64 → Nat → U8
  /-- What `FindFreeFileDescriptor` returns when it falls off its end. -/
  noDescriptor : Nat

structure Kernel where
  mem : Memory
  taskManager : Nat → Task
  curPid : Nat
  activeTSS : TSS
  capslock : Bool
  upper : Bool
  keyBuffer : Nat → U8
  keyBufferPos : Nat

namespace Kernel

def setTask (k : Kernel) (pid : Nat) (t : Task) : Kernel :=
  { k with taskManager := Function.update k.taskManager pid t }

def setRegisters (k : Kernel) (pid : Nat) (r : InterruptRegisters) : Kernel :=
  k.setTask pid { k.taskManager pid with savedRegisters := r }

def setState (k : Kernel) (pid : Nat) (s : ProcessState) : Kernel :=
  k.setTask pid { k.taskManager pid with processState := s }

def setMemoryData (k : Kernel) (pid : Nat) (d : TaskMemoryDefinition) : Kernel :=
  k.setTask pid { k.taskManager pid with memoryData := d }

def setCr3 (k : Kernel) (address : U64) : Kernel :=
  { k with mem := memSetCr3 k.mem address }

/-- Makes `pid` current, with its address space, as `fork` and the loader do for a while. -/
def enter (k : Kernel) (pid : Nat) : Kernel :=
  { k.setCr3 (k.taskManager pid).basePML4 with curPid := pid }

/-- The memory data of `KernelTask`, which is slot 0. -/
def kernelTask (k : Kernel) : TaskMemoryDefinition := (k.taskManager 0).memoryData

end Kernel

def taskCount : Nat := 512

/-! ## Regions of a task -/

def getMemLowHigh (vaddr pageCount : U64) (fwd : Bool) : U64 :=
  let offset : U64 := if fwd then 0x1000 else -0x1000
  vaddr + pageCount * offset

def regionAccessOk (m : TaskMemoryDefinition) (vaddr : U64) : Bool :=
  let inCodeRegion := decide (m.baseVirtualAddress < vaddr) &&
    decide (vaddr < getMemLowHigh m.baseVirtualAddress m.pageCount true)
  let inStackRegion := decide (vaddr < m.stackBaseVirtualAddress + 0x1000) &&
    decide (getMemLowHigh m.stackBaseVirtualAddress m.stackPageCount false < vaddr)
  let inKernelStackRegion := decide (vaddr < m.kernelStackBaseVirtualAddress + 0x1000) &&
    decide (getMemLowHigh m.kernelStackBaseVirtualAddress m.kernelStackPageCount false < vaddr)
  inCodeRegion || inStackRegion || inKernelStackRegion

def memAccessOk (k : Kernel) (vaddr : U64) (pid : Nat) : Bool :=
  regionAccessOk (k.taskManager pid).memoryData vaddr

/-- A copy out of a program's memory: the buffer afterwards, the addresses read in order, and what is
returned. -/
structure UserCopy where
  dest : Nat → U8
  reads : List U64
  result : U64

/-- `copy_from_user`, where `read` is what the processor finds at an address. -/
def copyFromUser (k : Kernel) (read : U64 → U8) (dest : Nat → U8) (src n : U64) : UserCopy :=
  if memAccessOk k src k.curPid then
    { dest := fun i => if i < n.toNat then read (src + BitVec.ofNat 64 i) else dest i
      reads := (List.range n.toNat).map fun i => src + BitVec.ofNat 64 i
      result := 0 }
  else ⟨dest, [], n⟩

/-- The loop of `strcpy_from_user`, which reads a byte before it looks at the count. -/
def strcpyLoop (read : U64 → U8) (src : U64) : Nat → Nat → (Nat → U8) → UserCopy
  | 0, i, dest => ⟨dest, [src + BitVec.ofNat 64 i], BitVec.ofNat 64 i⟩
  | n + 1, i, dest =>
    let cur := src + BitVec.ofNat 64 i
    if read cur = 0 then ⟨dest, [cur], BitVec.ofNat 64 i⟩
    else
      let rest := strcpyLoop read src n (i + 1) (Function.update dest i (read cur))
      { rest with reads := cur :: rest.reads }

def strcpyFromUser (k : Kernel) (read : U64 → U8) (dest : Nat → U8) (src count : U64) : UserCopy :=
  if memAccessOk k src k.curPid then strcpyLoop read src count.toNat 0 dest else ⟨dest, [], 0⟩

/-! ## The task table -/

def killTask (k : Kernel) (pid : Nat) : Kernel := k.setState pid .kill

/-- The first free slot, or `TASK_COUNT + 1`. -/
def findFreePID (k : Kernel) : Nat :=
  ((List.range taskCount).find? fun i => !(k.taskManager i).exist).getD (taskCount + 1)

def findFreeFileDescriptor (k : Kernel) (dev : Devices) (pid : Nat) : Nat :=
  ((List.range 64).find? fun i => !((k.taskManager pid).descriptors i).used).getD dev.noDescriptor

/-- The record both registration functions build. -/
def registeredTask (baseVaddr entryPoint pageCount : U64) (maxTicks : U8)
    (stackStart pml4 : U64) : Task :=
  { zeroTask with
    memoryData := { zeroTask.memoryData with
      baseVirtualAddress := baseVaddr
      pageCount := pageCount }
    maxTicks := maxTicks
    savedRegisters := { zeroRegisters with
      cs := 0x18 ||| 0x3
      rsp := stackStart
      rbp := stackStart
      rip := entryPoint
      ss := 0x20 ||| 0x3 }
    basePML4 := pml4
    descriptors := fun i => { zeroDescriptor with used := i = 0 || i = 1 }
    exist := true }

def registerTaskStrict (k : Kernel) (baseVaddr entryPoint pageCount : U64) (maxTicks : U8)
    (stackStart pml4 : U64) (pid : Nat) : Kernel :=
  k.setTask pid (registeredTask baseVaddr entryPoint pageCount maxTicks stackStart pml4)

/-- Without a free slot the caller is told it got slot 1. -/
def registerTask (k : Kernel) (baseVaddr entryPoint pageCount : U64) (maxTicks : U8)
    (stackStart pml4 : U64) : Kernel × Nat :=
  let free := findFreePID k
  if free = taskCount + 1 then (k, 1)
  else (registerTaskStrict k baseVaddr entryPoint pageCount maxTicks stackStart pml4 free, free)

/-- `malloc(KernelTask)`. -/
def kernelMalloc (k : Kernel) : Option (Kernel × U64) := do
  let (m, d, allocated) ← malloc k.mem k.kernelTask
  some ({ k with mem := m }.setMemoryData 0 d, allocated)

/-- `Create_User_Memory`, which takes its page from `KernelTask`. -/
def kernelCreateUserMemory (k : Kernel) : Option (Kernel × U64) := do
  let (m, d, pml4) ← createUserMemory k.mem k.kernelTask
  some ({ k with mem := m }.setMemoryData 0 d, pml4)

/-- The five pages of a kernel stack; the address of the last one is kept. -/
def mallocKernelStack (k : Kernel) : Option (Kernel × U64) := do
  let (k, _) ← kernelMalloc k
  let (k, _) ← kernelMalloc k
  let (k, _) ← kernelMalloc k
  let (k, _) ← kernelMalloc k
  kernelMalloc k

def freeTaskMemory (fuel : Nat) (k : Kernel) (pid : Nat) : Option Kernel := do
  let lastPml4 := k.mem.paging.pml4Physical
  let k := { k with curPid := pid }
  let taskPml4 := (k.taskManager pid).basePML4
  let m ← teardown fuel k.mem taskPml4
  let k := { k with mem := m }
  if lastPml4 = taskPml4 then some k else some (k.setCr3 lastPml4)

/-! ## The stack of a task -/

/-- `TaskStack_Push(pid, value, false)`: the stack is written in the current address space. -/
def taskStackPush (k : Kernel) (pid : Nat) (value : U64) : Option Kernel :=
  let given := k.taskManager pid
  if given.exist then do
    let rsp := given.savedRegisters.rsp - 8
    let m ← store64 k.mem rsp value
    some ({ k with mem := m }.setRegisters pid { given.savedRegisters with rsp := rsp })
  else some k

/-- `TaskStack_Pop(pid, false)`. -/
def taskStackPop (k : Kernel) (pid : Nat) : Option (Kernel × U64) :=
  let given := k.taskManager pid
  if given.exist then do
    let value ← load64 k.mem given.savedRegisters.rsp
    some (k.setRegisters pid { given.savedRegisters with rsp := given.savedRegisters.rsp + 8 },
      value)
  else some (k, 0)

/-- The strings of `argv`, last one first, below `stack`; the result lists where each begins. -/
def pushStrings (m : Memory) (stack : U64) : List (List U8) → Option (Memory × U64 × List U64)
  | [] => some (m, stack, [])
  | s :: argv => do
    let (m, stack, pointers) ← pushStrings m stack argv
    let stack := stack - BitVec.ofNat 64 (s.length + 1)
    let m ← copyOut m stack (s ++ [0])
    some (m, stack, stack :: pointers)

/-- The words of the argument vector, last one first. -/
def pushWords (m : Memory) (stack : U64) : List U64 → Option (Memory × U64)
  | [] => some (m, stack)
  | x :: xs => do
    let (m, stack) ← pushWords m stack xs
    let m ← store64 m (stack - 8) x
    some (m, stack - 8)

def setupTaskStack (k : Kernel) (pid : Nat) (argv : List (List U8)) : Option Kernel := do
  let task := k.taskManager pid
  let lastPml4 := k.mem.paging.pml4Physical
  let lastPid := k.curPid
  let k := k.enter pid
  let (m, stack, pointers) ← pushStrings k.mem task.savedRegisters.rsp argv
  let (m, stack) ← pushWords m stack (pointers ++ [0])
  let stack := stack - 8
  let m ← store64 m stack (BitVec.ofNat 64 argv.length)
  let k := { k with mem := m }.setRegisters pid { task.savedRegisters with rsp := stack }
  some { k.setCr3 lastPml4 with curPid := lastPid }

/-! ## Loading a program -/

structure ProgramHeader64 where
  pType : U32
  pFlags : U32
  pOffset : U64
  pVaddr : U64
  pFilesz : U64
  pMemsz : U64
  deriving DecidableEq, Repr

structure ElfHeader64 where
  eType : U16
  eMachine : U16
  eEntry : U64
  ePhoff : U64
  ePhentsize : U16
  ePhnum : U16
  deriving DecidableEq, Repr

def etExec : U16 := 0x02
def emX86_64 : U16 := 0x3E
def ptLoad : U32 := 0x01
def userPriority : U8 := 20

/-- The little-endian number of `n` bytes at `offset` of a buffer. -/
def field (buffer : Nat → U8) (offset n : Nat) : U64 :=
  wordOfBytes ((List.range n).map fun k => buffer (offset + k))

def elfHeader (buffer : Nat → U8) : ElfHeader64 where
  eType := (field buffer 16 2).setWidth 16
  eMachine := (field buffer 18 2).setWidth 16
  eEntry := field buffer 24 8
  ePhoff := field buffer 32 8
  ePhentsize := (field buffer 54 2).setWidth 16
  ePhnum := (field buffer 56 2).setWidth 16

def programHeader (buffer : Nat → U8) (offset : Nat) : ProgramHeader64 where
  pType := (field buffer offset 4).setWidth 32
  pFlags := (field buffer (offset + 4) 4).setWidth 32
  pOffset := field buffer (offset + 8) 8
  pVaddr := field buffer (offset + 16) 8
  pFilesz := field buffer (offset + 32) 8
  pMemsz := field buffer (offset + 40) 8

/-- The check both loaders make; the magic bytes are not looked at. -/
def elfAccepted (h : ElfHeader64) : Bool :=
  h.eType == etExec && h.eMachine == emX86_64 && h.ePhentsize == 0x38

/-- The pages of one segment, each on the first free frame. -/
def allocSegment (k : Kernel) (pid : Nat) (permissions : PagePermissions) (virtualAddress : U64) :
    Nat → Option Kernel
  | 0 => some k
  | n + 1 => do
    let (m, _) ← allocPage k.mem ⟨permissions, virtualAddress, findNextFreePhysical k.mem⟩
    let d := (k.taskManager pid).memoryData
    let k := { k with mem := m }.setMemoryData pid { d with pageCount := d.pageCount + 1 }
    allocSegment k pid permissions (virtualAddress + 0x1000) n

/-- `FLOPPY_Read_LBA` into memory; the driver takes a 16-bit sector count. -/
def readSectors (m : Memory) (dev : Devices) (lba dest sectors : U64) : Option Memory :=
  copyOut m dest ((List.range ((sectors.setWidth 16).toNat * 512)).map (dev.readLBA lba))

/-- The bytes up to the next sector boundary, through a scratch buffer, when the file offset lies
inside a sector; with them the next sector and how many bytes were read. -/
def readHead (m : Memory) (dev : Devices) (lba : U64) (h : ProgramHeader64) :
    Option (Memory × U64 × U64) :=
  let properLba := lba + h.pOffset / 512
  let headOffset := h.pOffset % 512
  let headBytes := 0x200 - headOffset
  if 0 < headOffset then do
    let bytes := (List.range headBytes.toNat).map fun i =>
      dev.readLBA properLba (headOffset.toNat + i)
    let m ← copyOut m h.pVaddr bytes
    some (m, properLba + 1, headBytes)
  else some (m, properLba, 0)

/-- The file data of one segment. -/
def readSegment (m : Memory) (dev : Devices) (lba : U64) (h : ProgramHeader64) : Option Memory := do
  let (m, properLba, processed) ← readHead m dev lba h
  let remaining := h.pFilesz - processed
  if 0 < remaining then
    readSectors m dev properLba (h.pVaddr + processed) ((remaining + 511) / 512)
  else some m

def loadSegment (k : Kernel) (dev : Devices) (lba : U64) (pid : Nat) (h : ProgramHeader64) :
    Option Kernel :=
  if h.pType = ptLoad then do
    let d := (k.taskManager pid).memoryData
    let k := if d.baseVirtualAddress = 0
      then k.setMemoryData pid { d with baseVirtualAddress := h.pVaddr } else k
    let startVaddr := h.pVaddr &&& ~~~0xFFF
    let endVaddr := (h.pVaddr + h.pMemsz + 0xFFF) &&& ~~~0xFFF
    let permissions : PagePermissions :=
      ⟨0b101 ||| (h.pFlags &&& 2).setWidth 16, h.pFlags &&& 1 == 0⟩
    let k ← allocSegment k pid permissions startVaddr ((endVaddr - startVaddr) / 0x1000).toNat
    let m ← readSegment k.mem dev lba h
    some { k with mem := m }
  else some k

def loadSegments (k : Kernel) (dev : Devices) (lba : U64) (pid : Nat) :
    List ProgramHeader64 → Option Kernel
  | [] => some k
  | h :: hs => do
    let k ← loadSegment k dev lba pid h
    loadSegments k dev lba pid hs

def stackBase : U64 := 0x7FFF0000

/-- The first stack page of a new program, zeroed. -/
def allocStack (k : Kernel) (pid : Nat) : Option Kernel := do
  let free := findNextFreePhysical k.mem
  let (m, stack) ← allocPage k.mem ⟨⟨userFlags, false⟩, stackBase &&& ~~~0xFFF, free⟩
  let m ← copyOut m stack (List.replicate 0x1000 0)
  let d := (k.taskManager pid).memoryData
  some ({ k with mem := m }.setMemoryData pid
    { d with stackBaseVirtualAddress := stackBase, stackPageCount := 1 })

/-- `LoadElfStrict`: the program replaces whatever task slot `pid` held. A rejected image leaves
everything as it was. -/
def loadElfStrict (k : Kernel) (dev : Devices) (lba : U64) (pid : Nat) (newPML4 : U64)
    (argv : List (List U8)) : Option Kernel := do
  let programBuffer := dev.readLBA lba
  let elf := elfHeader programBuffer
  if elfAccepted elf then
    let headers := (List.range elf.ePhnum.toNat).map fun i =>
      programHeader programBuffer (elf.ePhoff.toNat + 56 * i)
    let prevPML4 := k.mem.paging.pml4Physical
    let k := k.setCr3 newPML4
    let lastPid := k.curPid
    let k := { k with curPid := pid }
    let t := k.taskManager pid
    let k := k.setTask pid { t with
      memoryData := { t.memoryData with baseVirtualAddress := 0 }
      basePML4 := newPML4
      processState := .creation }
    let k ← allocStack k pid
    let k ← loadSegments k dev lba pid headers
    let d := (k.taskManager pid).memoryData
    let k := k.setMemoryData pid { d with kernelStackPageCount := 5 }
    let (k, kernelStack) ← mallocKernelStack k
    let d := (k.taskManager pid).memoryData
    let k := k.setMemoryData pid { d with kernelStackBaseVirtualAddress := kernelStack }
    let k := { k with curPid := lastPid }
    let d := (k.taskManager pid).memoryData
    let k := registerTaskStrict k d.baseVirtualAddress elf.eEntry d.pageCount userPriority
      (stackBase + 4080) newPML4 pid
    let t := k.taskManager pid
    let k := k.setTask pid { t with
      memoryData := { t.memoryData with
        stackBaseVirtualAddress := stackBase
        stackPageCount := 1
        kernelStackPageCount := 5
        kernelStackBaseVirtualAddress := kernelStack }
      userTSS := { (k.taskManager 0).userTSS with rsp0 := kernelStack } }
    let k ← setupTaskStack k pid argv
    let k := k.setState pid .ready
    some (k.setCr3 prevPML4)
  else some k

def loadElfStrictGemFS (k : Kernel) (dev : Devices) (index : U64) (pid : Nat) (newPML4 : U64)
    (argv : List (List U8)) : Option Kernel :=
  loadElfStrict k dev (dev.blockToLBA (dev.readEntry index).start) pid newPML4 argv

/-- `"test arg"`. -/
def testArg : List U8 := [0x74, 0x65, 0x73, 0x74, 0x20, 0x61, 0x72, 0x67]

/-- `LoadElf`: the program gets an address space and a slot of its own. The result is its base
address, `0` for `NULL`. -/
def loadElf (k : Kernel) (dev : Devices) (lba : U64) : Option (Kernel × U64) := do
  let programBuffer := dev.readLBA lba
  let elf := elfHeader programBuffer
  if elfAccepted elf then
    let headers := (List.range elf.ePhnum.toNat).map fun i =>
      programHeader programBuffer (elf.ePhoff.toNat + 56 * i)
    let (k, newPML4) ← kernelCreateUserMemory k
    let prevPML4 := k.mem.paging.pml4Physical
    let k := k.setCr3 newPML4
    let nextPid := findFreePID k
    let lastPid := k.curPid
    let k := { k with curPid := nextPid }
    let t := k.taskManager nextPid
    let k := k.setTask nextPid { t with
      memoryData := { t.memoryData with baseVirtualAddress := 0 }
      basePML4 := newPML4
      processState := .creation }
    let k ← allocStack k nextPid
    let k ← loadSegments k dev lba nextPid headers
    let d := (k.taskManager nextPid).memoryData
    let k := k.setMemoryData nextPid { d with
      heapVirtualAddress := d.baseVirtualAddress + d.pageCount * 0x1000
      kernelStackPageCount := 5 }
    let (k, kernelStack) ← mallocKernelStack k
    let d := (k.taskManager nextPid).memoryData
    let k := k.setMemoryData nextPid { d with kernelStackBaseVirtualAddress := kernelStack }
    let k := { k with curPid := lastPid }
    let d := (k.taskManager nextPid).memoryData
    let (k, _) := registerTask k d.baseVirtualAddress elf.eEntry d.pageCount userPriority
      (stackBase + 4080) newPML4
    let t := k.taskManager nextPid
    let k := k.setTask nextPid { t with
      memoryData := { t.memoryData with
        stackBaseVirtualAddress := stackBase
        stackPageCount := 1
        kernelStackPageCount := 5
        kernelStackBaseVirtualAddress := kernelStack }
      userTSS := { (k.taskManager 0).userTSS with rsp0 := kernelStack } }
    let k ← setupTaskStack k nextPid [testArg]
    let k := k.setState nextPid .ready
    some (k.setCr3 prevPML4, (k.taskManager nextPid).memoryData.baseVirtualAddress)
  else some (k, 0)

def loadElfGemFS (k : Kernel) (dev : Devices) (index : U64) : Option (Kernel × U64) :=
  loadElf k dev (dev.blockToLBA (dev.readEntry index).start)

/-! ## Waking the parent -/

def signalOwner (k : Kernel) (origin : Task) (reason : U32) (ret : U64) : Kernel :=
  if origin.ownerPID = 0 then k
  else
    let owner := k.taskManager origin.ownerPID
    if owner.processState = .waiting ∧ owner.waitingReason = .child ∧
        owner.childWaitingReason = reason then
      k.setTask origin.ownerPID { owner with
        savedRegisters := { owner.savedRegisters with rax := ret }
        processState := .ready
        waitingReason := .null }
    else k

end ChudOS
