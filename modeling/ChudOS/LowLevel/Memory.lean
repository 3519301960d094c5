import Mathlib.Logic.Function.Basic
import Mathlib.Data.List.Basic

/-!
# Physical memory, the frame table and the page tables

The functions of `Memory.c` that the running kernel uses. RAM is addressed by physical frame and
quadword; C objects that are not page tables or user pages (the frame table, the globals) are
fields of the state. A page-table access of the source, `*(x + VIRTUAL_MEMORY_BARRIER)`, is an
access to the physical frame of `x`, so the direct map is the identity here. `MapRoom` of
`MapDisplacement.lean` and `boot_map` of `BootTables.lean` say when the page tables agree with that.
Every other pointer is translated by the page walk.

A result `none` means that the CPU halts, or that the kernel itself touches an unmapped address and
would take a page fault inside the call.
-/

namespace ChudOS

abbrev U8 := BitVec 8
abbrev U16 := BitVec 16
abbrev U32 := BitVec 32
abbrev U64 := BitVec 64

/-- The kernel lives at this address and above, user programs below. -/
def virtualMemoryBarrier : U64 := 0xffff800000000000

def kernelFlags : U16 := 0b00000011
def kernelFlagsUncacheable : U16 := 0b00010011
def userFlags : U16 := 0b00000111

/-- `flags` holds the bits used (1), dirty (2) and kernel-owned (4). -/
structure PhysicalFrame where
  refcount : U32
  flags : U8
  deriving DecidableEq, Repr

structure PagePermissions where
  flags : U16
  executeDisable : Bool
  deriving DecidableEq, Repr

structure PageDetails where
  flags : PagePermissions
  virtualAddress : U64
  physicalAddress : U64
  deriving DecidableEq, Repr

structure PageEntries where
  pml4Entry : U16
  pdptEntry : U16
  pdEntry : U16
  ptEntry : U16
  pageOffset : U16
  deriving DecidableEq, Repr

structure TaskMemoryDefinition where
  baseVirtualAddress : U64
  pageCount : U64
  stackBaseVirtualAddress : U64
  stackPageCount : U64
  kernelStackBaseVirtualAddress : U64
  kernelStackPageCount : U64
  heapVirtualAddress : U64
  deriving DecidableEq, Repr

/-- The register that selects the address space and the globals that shadow it. -/
@[ext]
structure Paging where
  cr3 : U64
  pml4Physical : U64
  kernelPML4Physical : U64
  deriving DecidableEq, Repr

structure Memory where
  /-- Quadword `i` of physical frame `f` is `ram f i`, for `i < 512`. -/
  ram : Nat → Nat → U64
  physFrames : Nat → PhysicalFrame
  totalMem : U64
  availableMem : U64
  physicalPagesUsed : U64
  virtualMemorySize : U32
  paging : Paging

/-- A quadword of a page table: the frame of the table and the index of the entry. -/
abbrev Slot := Nat × Nat

/-- The frame a physical address lies in. -/
def frameOf (address : U64) : Nat := address.toNat / 0x1000

def physOf (frame : Nat) : U64 := BitVec.ofNat 64 (frame * 0x1000)

namespace Memory

def entry (m : Memory) (s : Slot) : U64 := m.ram s.1 s.2

def setEntry (m : Memory) (s : Slot) (x : U64) : Memory :=
  { m with ram := Function.update m.ram s.1 (Function.update (m.ram s.1) s.2 x) }

/-- `memset(frame, 0, 0x1000)`. -/
def zeroFrame (m : Memory) (f : Nat) : Memory :=
  { m with ram := Function.update m.ram f fun _ => 0 }

def setFrame (m : Memory) (f : Nat) (x : PhysicalFrame) : Memory :=
  { m with physFrames := Function.update m.physFrames f x }

def setFlags (m : Memory) (f : Nat) (x : U8) : Memory :=
  m.setFrame f { m.physFrames f with flags := x }

end Memory

/-! ## The frame table -/

def memSetBit (m : Memory) (address : U64) : Memory :=
  { m.setFlags (frameOf address) ((m.physFrames (frameOf address)).flags ||| 1) with
    physicalPagesUsed := m.physicalPagesUsed + 1 }

def memClearBit (m : Memory) (address : U64) : Memory :=
  { m.setFlags (frameOf address) ((m.physFrames (frameOf address)).flags &&& ~~~1) with
    physicalPagesUsed := m.physicalPagesUsed - 1 }

def memGetBit (m : Memory) (address : U64) : Bool :=
  (m.physFrames (frameOf address)).flags &&& 0b111 != 0

/-- How many frames the scan `phys = 0; phys < total_mem; phys += 0x1000` visits. -/
def frameCount (m : Memory) : Nat := (m.totalMem.toNat + 0xFFF) / 0x1000

/-- The first unused frame; frame 0 also stands for "none is left". -/
def findNextFreePhysical (m : Memory) : U64 :=
  match (List.range (frameCount m)).find? fun f => !memGetBit m (physOf f) with
  | some f => physOf f
  | none => 0

/-! ## Address spaces -/

def memSetCr3 (m : Memory) (address : U64) : Memory :=
  { m with paging := { m.paging with cr3 := address, pml4Physical := address } }

def extractPageEntries (virtualAddress : U64) : PageEntries where
  pml4Entry := ((virtualAddress >>> 39) &&& 0x1FF).setWidth 16
  pdptEntry := ((virtualAddress >>> 30) &&& 0x1FF).setWidth 16
  pdEntry := ((virtualAddress >>> 21) &&& 0x1FF).setWidth 16
  ptEntry := ((virtualAddress >>> 12) &&& 0x1FF).setWidth 16
  pageOffset := (virtualAddress &&& 0xFFF).setWidth 16

def isCanonical (addr : U64) : Bool :=
  (addr >>> 47 == 0) || (addr >>> 47 == 0x1FFFFFFFF)

/-- The address bits of a page-table entry. -/
def pteAddr (e : U64) : U64 := e &&& 0x000FFFFFFFFFF000

def pteFrame (e : U64) : Nat := frameOf (pteAddr e)

/-- The frame a present entry points at. -/
def link (e : U64) : Option Nat := if e &&& 1 = 0 then none else some (pteFrame e)

/-- `EnsureEntry`: an absent entry, or one with a non-canonical address, gets a fresh table. -/
def ensureEntry (m : Memory) (eAddr : Slot) (flags : U8) : Memory :=
  let fix := pteAddr (m.entry eAddr)
  if m.entry eAddr &&& 1 = 0 ∨ isCanonical fix = false then
    let new := findNextFreePhysical m
    let m := m.setFlags (frameOf new) 0b101
    let m := m.zeroFrame (frameOf new)
    m.setEntry eAddr (new ||| flags.setWidth 64 ||| 1)
  else m

/-- The slot of the page-table entry for `entries`, allocating the tables that are missing. -/
def calculatePagePhysicalEntryAddress (m : Memory) (entries : PageEntries) : Memory × Slot :=
  let flags : U16 := if entries.pml4Entry < 256 then userFlags else kernelFlags
  let pml4 : Slot := (frameOf m.paging.pml4Physical, entries.pml4Entry.toNat)
  let m := ensureEntry m pml4 (flags.setWidth 8)
  let pdpt : Slot := (pteFrame (m.entry pml4), entries.pdptEntry.toNat)
  let m := ensureEntry m pdpt (flags.setWidth 8)
  let pd : Slot := (pteFrame (m.entry pdpt), entries.pdEntry.toNat)
  let m := ensureEntry m pd (flags.setWidth 8)
  (m, (pteFrame (m.entry pd), entries.ptEntry.toNat))

/-- The entry `alloc_page` stores for a page. -/
def pageEntry (page : PageDetails) : U64 :=
  page.physicalAddress ||| page.flags.flags.setWidth 64 |||
    (if page.flags.executeDisable then 1 else 0 : U64) <<< 63

/-- Why `alloc_page` returns `NULL` without mapping: the frame is dirty, or a user address asks
for a frame of the kernel. -/
def allocRefused (m : Memory) (page : PageDetails) : Bool :=
  let frame := m.physFrames (frameOf page.physicalAddress)
  frame.flags &&& 0b10 == 0b10 ||
    (frame.flags &&& 0b100 == 0b100 && decide (page.virtualAddress < virtualMemoryBarrier))

/-- The reference counting at the start of `alloc_page`, for user addresses only. -/
def countReference (m : Memory) (page : PageDetails) : Memory :=
  let f := frameOf page.physicalAddress
  if page.virtualAddress < virtualMemoryBarrier then
    let m := if (m.physFrames f).refcount = 0 then m.setFlags f 0b1 else m
    m.setFrame f { m.physFrames f with refcount := (m.physFrames f).refcount + 1 }
  else m

/-- Maps one page. The result is the virtual address, or `0` for `NULL`; memory above
`total_mem` halts the machine. -/
def allocPage (m : Memory) (page : PageDetails) : Option (Memory × U64) :=
  if m.totalMem ≤ page.physicalAddress then none
  else if allocRefused m page then some (m, 0)
  else
    let m := countReference m page
    let (m, slot) := calculatePagePhysicalEntryAddress m (extractPageEntries page.virtualAddress)
    some (m.setEntry slot (pageEntry page), page.virtualAddress)

/-- The reference counting at the start of `alloc_page_no_invlpg`. -/
def countReferenceNoInvlpg (m : Memory) (page : PageDetails) : Memory :=
  let f := frameOf page.physicalAddress
  if page.virtualAddress < virtualMemoryBarrier then
    let m := if (m.physFrames f).refcount = 0 then memSetBit m page.physicalAddress else m
    m.setFrame f { m.physFrames f with refcount := (m.physFrames f).refcount + 1 }
  else m

/-- `alloc_page_no_invlpg`, which does not refuse the kernel's frames. -/
def allocPageNoInvlpg (m : Memory) (page : PageDetails) : Option (Memory × U64) :=
  if m.totalMem ≤ page.physicalAddress then none
  else if (m.physFrames (frameOf page.physicalAddress)).flags &&& 0b10 == 0b10 then some (m, 0)
  else
    let m := countReferenceNoInvlpg m page
    let (m, slot) := calculatePagePhysicalEntryAddress m (extractPageEntries page.virtualAddress)
    some (m.setEntry slot (pageEntry page), page.virtualAddress)

/-- The early exit of `free_page`, a product of two table indexes compared with the number of
kernel page tables. -/
def freeOutOfBounds (m : Memory) (virtualAddress : U64) : Bool :=
  let entries := extractPageEntries virtualAddress
  let pageEntry : U32 := entries.ptEntry.setWidth 32 * entries.pdEntry.setWidth 32
  decide (m.virtualMemorySize < pageEntry + 2)

/-- The reference counting of `free_page`. -/
def dropReference (m : Memory) (physicalAddress : U64) : Memory :=
  let f := frameOf physicalAddress
  let m := if (m.physFrames f).refcount = 1 then memClearBit m physicalAddress else m
  m.setFrame f { m.physFrames f with refcount := (m.physFrames f).refcount - 1 }

def freePage (m : Memory) (page : PageDetails) : Memory × U64 :=
  if freeOutOfBounds m page.virtualAddress then (m, 0)
  else
    let m := dropReference m page.physicalAddress
    let (m, slot) := calculatePagePhysicalEntryAddress m (extractPageEntries page.virtualAddress)
    (m.setEntry slot 0, page.virtualAddress)

/-- The memory `free_page` leaves. -/
def freedPage (m : Memory) (page : PageDetails) : Memory := (freePage m page).1

/-- The physical address behind a virtual one, by way of its page-table entry. -/
def physAddr (m : Memory) (pointer : U64) : Memory × U64 :=
  let (m, slot) := calculatePagePhysicalEntryAddress m (extractPageEntries (pointer &&& ~~~0xFFF))
  (m, pteAddr (m.entry slot) ||| (pointer &&& 0xFFF))

/-- `table[512]` is the first quadword of the next frame. -/
def tableWord (m : Memory) (table i : Nat) : U64 :=
  if i < 512 then m.ram table i else m.ram (table + 1) (i - 512)

def findFirstPresent (m : Memory) (table : Nat) : Nat :=
  ((List.range 513).find? fun i => tableWord m table i &&& 1 == 1).getD 512

/-! ## The hardware's page walk -/

/-- The slot of the page-table entry the CPU consults for `entries`, from the table `root`. -/
def pageWalk (m : Memory) (root : Nat) (entries : PageEntries) : Option Slot := do
  let pdpt ← link (m.ram root entries.pml4Entry.toNat)
  let pd ← link (m.ram pdpt entries.pdptEntry.toNat)
  let pt ← link (m.ram pd entries.pdEntry.toNat)
  some (pt, entries.ptEntry.toNat)

/-- The frame the CPU finds for a virtual address under the current `CR3`. -/
def translate (m : Memory) (virtualAddress : U64) : Option Nat := do
  let slot ← pageWalk m (frameOf m.paging.cr3) (extractPageEntries virtualAddress)
  link (m.entry slot)

def byteOf (x : U64) (k : Nat) : U8 := (x >>> (8 * k)).setWidth 8

def setByte (x : U64) (k : Nat) (b : U8) : U64 :=
  (x &&& ~~~((0xFF : U64) <<< (8 * k))) ||| (b.setWidth 64 <<< (8 * k))

def loadByte (m : Memory) (virtualAddress : U64) : Option U8 := do
  let f ← translate m virtualAddress
  let offset := virtualAddress.toNat % 0x1000
  some (byteOf (m.ram f (offset / 8)) (offset % 8))

def storeByte (m : Memory) (virtualAddress : U64) (b : U8) : Option Memory := do
  let f ← translate m virtualAddress
  let offset := virtualAddress.toNat % 0x1000
  some (m.setEntry (f, offset / 8) (setByte (m.ram f (offset / 8)) (offset % 8) b))

/-- `memcpy` from a virtual address, byte by byte. -/
def copyIn (m : Memory) (src : U64) : Nat → Option (List U8)
  | 0 => some []
  | n + 1 => do
    let b ← loadByte m src
    let bs ← copyIn m (src + 1) n
    some (b :: bs)

/-- `memcpy` to a virtual address, byte by byte. -/
def copyOut (m : Memory) (dest : U64) : List U8 → Option Memory
  | [] => some m
  | b :: bs => do
    let m ← storeByte m dest b
    copyOut m (dest + 1) bs

def bytesOf64 (x : U64) : List U8 := (List.range 8).map (byteOf x)

/-- A quadword from its eight bytes, the first one least significant. -/
def wordOfBytes : List U8 → U64
  | [] => 0
  | b :: bs => b.setWidth 64 ||| (wordOfBytes bs <<< 8)

def load64 (m : Memory) (virtualAddress : U64) : Option U64 :=
  (copyIn m virtualAddress 8).map wordOfBytes

def store64 (m : Memory) (virtualAddress : U64) (x : U64) : Option Memory :=
  copyOut m virtualAddress (bytesOf64 x)

/-! ## Allocation for a task -/

/-- Where `malloc` and `malloc_specific` map their next page. -/
def nextPageAddress (t : TaskMemoryDefinition) : U64 :=
  t.baseVirtualAddress + t.pageCount * 0x1000 + 0x1000

def malloc (m : Memory) (t : TaskMemoryDefinition) :
    Option (Memory × TaskMemoryDefinition × U64) := do
  let free := findNextFreePhysical m
  let page : PageDetails := ⟨⟨kernelFlags, true⟩, nextPageAddress t, free⟩
  let m := m.setFlags (frameOf free) 0b101
  let (m, allocated) ← allocPage m page
  let m := m.setFlags (frameOf free) 0b101
  if allocated = 0 then some (m.setFlags (frameOf free) 0, t, allocated)
  else some (m, { t with pageCount := t.pageCount + 1 }, allocated)

def mallocSpecific (m : Memory) (t : TaskMemoryDefinition) (requestedAddress : U64)
    (permissions : PagePermissions) : Option (Memory × TaskMemoryDefinition × U64) := do
  let (m, allocated) ← allocPage m ⟨permissions, nextPageAddress t, requestedAddress⟩
  if allocated = 0 then some (m, t, allocated)
  else some (m, { t with pageCount := t.pageCount + 1 }, allocated)

/-- The upper half of the current PML4, with an empty lower half. -/
def upperHalf (m : Memory) : Nat → U64 :=
  fun i => if i < 256 then 0 else m.ram (frameOf m.paging.pml4Physical) i

def createUserMemory (m : Memory) (kernelTask : TaskMemoryDefinition) :
    Option (Memory × TaskMemoryDefinition × U64) := do
  let (m, kernelTask, pml4) ← malloc m kernelTask
  let f ← translate m pml4
  let m := m.zeroFrame f
  let m := { m with ram := Function.update m.ram f (upperHalf m) }
  let (m, address) := physAddr m pml4
  some (m, kernelTask, address)

/-! ## Tearing an address space down -/

/-- `free_page` on a table: `table` is the address the loop works on, in the direct map, and
`physicalAddress` what the entry above it says by then. -/
def freeTable (m : Memory) (table physicalAddress : U64) : Memory :=
  freedPage m ⟨⟨0, false⟩, table + virtualMemoryBarrier, physicalAddress⟩

/-- The innermost loop: every page table of the page directory `pd`. -/
def clearPD (fuel : Nat) (m : Memory) (pd : Nat) : Option Memory :=
  match fuel with
  | 0 => none
  | fuel + 1 =>
    let i := findFirstPresent m pd
    if i < 512 then
      let pt := pteAddr (m.ram pd i)
      let m := freeTable m pt pt
      clearPD fuel (m.setEntry (pd, i) 0) pd
    else some m

/-- The middle loop: every page directory of the table `pdpt`. -/
def clearPDPT (fuel : Nat) (m : Memory) (pdpt : Nat) : Option Memory :=
  match fuel with
  | 0 => none
  | fuel + 1 =>
    let i := findFirstPresent m pdpt
    if i < 512 then do
      let pd := pteAddr (m.ram pdpt i)
      let m ← clearPD fuel m (frameOf pd)
      let m := freeTable m pd (pteAddr (m.ram pdpt i))
      clearPDPT fuel (m.setEntry (pdpt, i) 0) pdpt
    else some m

/-- The outer loop: the lower half of the PML4. -/
def clearPML4 (fuel : Nat) (m : Memory) (pml4 : Nat) : Option Memory :=
  match fuel with
  | 0 => none
  | fuel + 1 =>
    let i := findFirstPresent m pml4
    if i < 256 then do
      let pdpt := pteAddr (m.ram pml4 i)
      let m ← clearPDPT fuel m (frameOf pdpt)
      let m := freeTable m pdpt (pteAddr (m.ram pml4 i))
      clearPML4 fuel (m.setEntry (pml4, i) 0) pml4
    else some m

/-- What both teardown functions do between their first and their last `CR3` switch. -/
def teardown (fuel : Nat) (m : Memory) (pml4 : U64) : Option Memory := do
  let m := memSetCr3 m pml4
  let m ← clearPML4 fuel m (frameOf pml4)
  let m := memSetCr3 m m.paging.kernelPML4Physical
  let m := m.zeroFrame (frameOf pml4)
  let (m, physicalAddress) := physAddr m (pml4 + virtualMemoryBarrier)
  some (freeTable m pml4 physicalAddress)

/-- The address space is left selected when it was current, for want of a better one. -/
def freeTaskMemoryByPml4 (fuel : Nat) (m : Memory) (pml4 : U64) : Option Memory := do
  let lastPml4 := m.paging.pml4Physical
  let m ← teardown fuel m pml4
  if lastPml4 = pml4 then some m else some (memSetCr3 m lastPml4)

end ChudOS
