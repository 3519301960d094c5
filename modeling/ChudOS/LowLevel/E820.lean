import ChudOS.LowLevel.Memory

/-!
# The memory map

`InitMem`: the table of physical frames is sized and filled from the BIOS's list of memory ranges,
and all of physical memory is mapped into the kernel's half.
-/

namespace ChudOS

open Memory

structure E820RangeDescriptor where
  baseAddress : U64
  length : U64
  type : U32
  deriving DecidableEq, Repr

/-- The end of the range, past its last byte. -/
def E820RangeDescriptor.limit (d : E820RangeDescriptor) : Nat := d.baseAddress.toNat + d.length.toNat

/-- What `get_upper_memory` stores below the list: its size in bytes. -/
def e820CurOffset (ds : List E820RangeDescriptor) : U32 := BitVec.ofNat 32 (24 * ds.length)

/-- The descriptors the loop visits: it stops at `loop_count - 1`. -/
def enumerated (ds : List E820RangeDescriptor) : List E820RangeDescriptor :=
  let loopCount := e820CurOffset ds / 24
  ds.take (loopCount - 1).toNat

/-- The loop over the pages of a range counts the bytes in an `int`, which is compared with the
64-bit length. -/
def pageOffset (k : Nat) : U64 := (BitVec.ofNat 32 (k * 0x1000)).signExtend 64

def reservePage (m : Memory) (address : U64) : Memory :=
  let m := memSetBit m address
  m.setFlags (frameOf address) ((m.physFrames (frameOf address)).flags &&& 0b11)

/-- The pages of a range that is not available, from the `k`-th one on; `curBase` has moved on
before a page is marked. -/
def reserveRange (doDirty : Bool) (length : U64) (m : Memory) (curBase : U64) (k : Nat) :
    Nat → Option Memory
  | 0 => none
  | fuel + 1 =>
    if pageOffset k < length then
      let curBase := curBase + 0x1000
      let m := if doDirty then reservePage m curBase else m
      reserveRange doDirty length m curBase (k + 1) fuel
    else some m

/-- One turn of the loop. Both sizes accumulate over the calls. -/
def enumerateRange (fuel : Nat) (doDirty : Bool) (m : Memory) (d : E820RangeDescriptor) :
    Option Memory :=
  let m := { m with totalMem := m.totalMem + d.length }
  if d.type = 1 then some { m with availableMem := m.availableMem + d.length }
  else reserveRange doDirty d.length m d.baseAddress 0 fuel

def enumerateRanges (fuel : Nat) (doDirty : Bool) (m : Memory) :
    List E820RangeDescriptor → Option Memory
  | [] => some m
  | d :: ds => do
    let m ← enumerateRange fuel doDirty m d
    enumerateRanges fuel doDirty m ds

def enumerateE820 (fuel : Nat) (doDirty : Bool) (m : Memory) (ds : List E820RangeDescriptor) :
    Option Memory :=
  enumerateRanges fuel doDirty m (enumerated ds)

/-- The pages of the kernel before the frame table. -/
def kernelPageCount : U64 := 512 * 32

/-- `sizeof(struct Physical_Frame)`. -/
def physicalFrameSize : U64 := 8

/-- The pages `InitMem` reserves for the frame table. -/
def physFramesPages (totalMem : U64) : U64 :=
  (totalMem / 0x1000 * physicalFrameSize + 0xFFF) / 0x1000

/-- How many frames the reserved pages hold. -/
def physFramesCapacity (totalMem : U64) : Nat :=
  (physFramesPages totalMem).toNat * 0x1000 / physicalFrameSize.toNat

/-- `phys_frames[i].flags = 0b101` for the `n` first frames. -/
def reserveFrames (m : Memory) (n : Nat) : Memory :=
  { m with
    physFrames := fun i => if i < n then { m.physFrames i with flags := 0b101 } else m.physFrames i }

/-- The frame table, and the page count of the kernel with it. The table is not cleared first. -/
def initFrames (fuel : Nat) (m : Memory) (ds : List E820RangeDescriptor) :
    Option (Memory × U64) := do
  let m ← enumerateE820 fuel false m ds
  let pageCount := kernelPageCount + physFramesPages m.totalMem
  let m := reserveFrames m (pageCount + 1).toNat
  let m ← enumerateE820 fuel true m ds
  some (m, pageCount)

/-- Where `InitMem` begins to extend the map that `boot2.s` has left. -/
def mappedAtBoot : U64 := 512 * 64 * 0x1000

/-- The pages from `phys` on, at their own address in the kernel's half. -/
def mapPhysical (m : Memory) (phys : U64) : Nat → Option Memory
  | 0 => some m
  | n + 1 => do
    let m ← if (m.physFrames (frameOf phys)).flags &&& 0b10 ≠ 0b10 then
        (allocPage m ⟨⟨kernelFlags, false⟩, phys + virtualMemoryBarrier, phys⟩).map (·.1)
      else some m
    mapPhysical m (phys + 0x1000) n

/-- How many pages `phys = 512*64*0x1000; phys < total_mem; phys += 0x1000` visits. -/
def physicalPages (m : Memory) : Nat := frameCount m - frameOf mappedAtBoot

/-- The state in which the kernel starts: the globals of `Memory.c` are zero, and RAM, the frame
table included, holds anything. -/
def bootMemory (ram : Nat → Nat → U64) (physFrames : Nat → PhysicalFrame) (cr3 : U64) : Memory where
  ram := ram
  physFrames := physFrames
  totalMem := 0
  availableMem := 0
  physicalPagesUsed := 0
  virtualMemorySize := 0
  paging := ⟨cr3, 0, 0⟩

/-- The identity map of the lower half is dropped. -/
def dropIdentityMap (m : Memory) : Memory :=
  let pml4 := frameOf m.paging.cr3
  { m with
    ram := Function.update m.ram pml4 fun i => if i < 256 then 0 else m.ram pml4 i
    virtualMemorySize := 32
    paging := ⟨m.paging.cr3, m.paging.cr3, m.paging.cr3⟩ }

/-- `InitMem`. The result has the memory, the regions of the kernel task and its PML4. -/
def initMem (fuel : Nat) (m : Memory) (kernelMemory : TaskMemoryDefinition)
    (ds : List E820RangeDescriptor) : Option (Memory × TaskMemoryDefinition × U64) := do
  let (m, pageCount) ← initFrames fuel (dropIdentityMap m) ds
  let (m, kernelTask, pml4) ← createUserMemory m
    { kernelMemory with baseVirtualAddress := virtualMemoryBarrier, pageCount := pageCount }
  let m := memSetCr3 m pml4
  let m := { m with paging := { m.paging with kernelPML4Physical := pml4 } }
  let m ← mapPhysical m mappedAtBoot (physicalPages m)
  some (m, kernelTask, pml4)

end ChudOS
