import ChudOS.LowLevel.Timer

/-!
# Page faults and fatal exceptions

`Exceptions.c`. A page fault kills the task, resolves copy-on-write, or maps a fresh page.
-/

namespace ChudOS

/-- Bit 9 of a page-table entry marks a copy-on-write page. -/
def cowBit : U64 := 0x200

/-- The entry after copy-on-write is resolved: writable, without the copy-on-write mark. -/
def cowResolved (pageData address : U64) : U64 :=
  let flags : U16 := ((pageData &&& 0xFFF).setWidth 16 ||| 0b11) &&& ~~~((1 : U16) <<< 9)
  let xd : U64 := pageData >>> 63
  address ||| xd <<< 63 ||| flags.setWidth 64

/-- Copies the 4096 bytes at a page-aligned virtual address through the bounce buffer: what the
address shows under `m` is written where it leads under `m'`. -/
def copyPage (m m' : Memory) (virtualAddress : U64) : Option Memory := do
  let src ← translate m virtualAddress
  let dst ← translate m' virtualAddress
  some { m' with ram := Function.update m'.ram dst (m.ram src) }

/-- The reference to a shared frame is given up; the entry still names it, writable. -/
def giveUpShare (m : Memory) (slot : Slot) : Memory :=
  let pageData := m.entry slot
  let f := pteFrame pageData
  let m := m.setFrame f { m.physFrames f with refcount := (m.physFrames f).refcount - 1 }
  m.setEntry slot (cowResolved pageData (pteAddr pageData))

/-- The entry names a fresh frame, which is marked but not counted. -/
def mapFresh (m : Memory) (slot : Slot) (pageData : U64) : Memory :=
  let newPhysical := findNextFreePhysical m
  memSetBit (m.setEntry slot (cowResolved pageData newPhysical)) newPhysical

/-- The copy-on-write branch, at the page-table entry `slot`. -/
def resolveCoW (m : Memory) (slot : Slot) (virtualAddress : U64) : Option Memory :=
  let pageData := m.entry slot
  if (m.physFrames (pteFrame pageData)).refcount ≤ 1 then
    some (m.setEntry slot (cowResolved pageData (pteAddr pageData)))
  else
    let m := giveUpShare m slot
    copyPage m (mapFresh m slot pageData) virtualAddress

/-- The pages from a fault up to the lowest mapped stack page. -/
def growStack (k : Kernel) (pid : Nat) (page : PageDetails) : Nat → Option Kernel
  | 0 => some k
  | n + 1 => do
    let (m, _) ← allocPage k.mem page
    let d := (k.taskManager pid).memoryData
    let k := { k with mem := m }.setMemoryData pid { d with stackPageCount := d.stackPageCount + 1 }
    growStack k pid { page with
      virtualAddress := page.virtualAddress + 0x1000
      physicalAddress := findNextFreePhysical m } n

def stackLow (d : TaskMemoryDefinition) : U64 :=
  d.stackBaseVirtualAddress - (d.stackPageCount - 1) * 0x1000

/-- The condition of the kill branch. -/
def faultKills (d : TaskMemoryDefinition) (cr2 : U64) : Bool :=
  !regionAccessOk d cr2 && decide (cr2 &&& ~~~0xFFF < stackLow d - 0x4000)

/-- The branch for an address without a copy-on-write page. -/
def demandPage (k : Kernel) (pid : Nat) (virtualAddress : U64) : Option Kernel :=
  let newPhysical := findNextFreePhysical k.mem
  let d := (k.taskManager pid).memoryData
  if stackLow d - 0x2000 ≤ virtualAddress ∧ virtualAddress ≤ d.stackBaseVirtualAddress then
    growStack k pid ⟨⟨userFlags, true⟩, virtualAddress, newPhysical⟩
      ((stackLow d - virtualAddress) / 0x1000).toNat
  else do
    let k := k.setMemoryData pid { d with pageCount := d.pageCount + 1 }
    let (m, _) ← allocPage k.mem ⟨⟨userFlags, false⟩, virtualAddress, newPhysical⟩
    some { k with mem := m }

def handlePageFault (fuel : Nat) (k : Kernel) (regs : InterruptRegisters) :
    Option (Kernel × InterruptRegisters) :=
  let cur := k.curPid
  let k := k.setRegisters cur regs
  let virtualAddress := regs.cr2 &&& ~~~0xFFF
  let d := (k.taskManager cur).memoryData
  if faultKills d regs.cr2 then do
    let k := killTask k cur
    let k := signalOwner k (k.taskManager cur) childWaitExit (-1)
    let k ← freeTaskMemory fuel k cur
    some (forceSwitch k regs)
  else if virtualAddress < virtualMemoryBarrier then do
    let k := k.setCr3 (k.taskManager cur).basePML4
    let (m, slot) := calculatePagePhysicalEntryAddress k.mem (extractPageEntries virtualAddress)
    let k := { k with mem := m }
    if m.entry slot &&& cowBit = 0 then
      let k ← demandPage k cur virtualAddress
      some (k, regs)
    else
      let m ← resolveCoW m slot virtualAddress
      some ({ k with mem := m }, regs)
  else do
    let (m, _) ← allocPage k.mem
      ⟨⟨kernelFlags, false⟩, virtualAddress, findNextFreePhysical k.mem⟩
    some ({ k with mem := m }, regs)

/-- The error code of the copy is whatever the stack held. -/
def errToInt (regs : InterruptRegisters) (uninitialized : U64) : InterruptRegisters :=
  { regs with errorCode := uninitialized }

/-- `GeneralProtectionFault` and `InvalidOpcode`: the task switch works on a copy of the frame, so
the stub pops the frame as it was. In the idle task the kernel panics. -/
def fatalException (k : Kernel) (regs : InterruptRegisters) (uninitialized : U64) :
    Option (Kernel × InterruptRegisters) :=
  let cur := k.curPid
  if cur = 0 then none
  else
    let (k, _) := forceSwitch (killTask k cur) (errToInt regs uninitialized)
    some (k, regs)

def generalProtectionFault := fatalException
def invalidOpcode := fatalException

end ChudOS
