import ChudOS.LowLevel.Memory
import Mathlib.Algebra.Group.Nat.Defs

/-!
# The floppy driver

`Floppy.c` and the part of `ISA_DMA.h` that it uses. A command of the controller moves one byte more
than the count register of the DMA controller says, between the bounce buffer and the sectors from
the one in the command on. The status that the controller returns for each command is a parameter.
-/

namespace ChudOS

/-- Why a transfer fails: an error bit in status register 1, or a drive without heads or sectors. -/
inductive FloppyStop
  | status (st1 : U8)
  | divideError
  deriving DecidableEq

/-- The geometry in `FLOPPY_Main_Info`. -/
structure FloppyInfo where
  headCount : U8
  sectorMax : U8
  deriving DecidableEq, Repr

structure CHS where
  cylinder : U16
  head : U16
  sector : U16
  deriving DecidableEq, Repr

structure FloppyDrive where
  info : FloppyInfo
  /-- The bytes of the sectors, one sector after the other. -/
  medium : Nat → U8
  /-- `FLOPPY_BOUNCE_BUFFER`. -/
  bounce : Nat → U8

def floppyLBAToCHS (info : FloppyInfo) (lba : U64) : CHS where
  cylinder := (lba / (info.headCount.setWidth 64 * info.sectorMax.setWidth 64)).setWidth 16
  head := (lba / info.sectorMax.setWidth 64 % info.headCount.setWidth 64).setWidth 16
  sector := (lba % info.sectorMax.setWidth 64 + 1).setWidth 16

/-- The place on the medium of the sector that a command names. -/
def FloppyInfo.position (info : FloppyInfo) (cylinder head sector : U8) : Nat :=
  (cylinder.toNat * info.headCount.toNat + head.toNat) * info.sectorMax.toNat + (sector.toNat - 1)

/-- `memcpy` of `n` bytes into a buffer. -/
def copyBytes (src : Nat → U8) (n : Nat) (dest : Nat → U8) (i : Nat) : U8 :=
  if i < n then src i else dest i

/-- The count register after `ISA_DMA_Transfer_To`. -/
def isaDMATransferTo (count : U32) : U16 := (count - 1).setWidth 16

/-- The count register after `ISA_DMA_Transfer_From`. -/
def isaDMATransferFrom (count : U32) : U16 := (count - 1).setWidth 16

namespace FloppyDrive

/-- The READ command. -/
def readData (d : FloppyDrive) (position : Nat) (count : U16) : FloppyDrive :=
  { d with bounce := copyBytes (fun i => d.medium (512 * position + i)) (count.toNat + 1) d.bounce }

/-- The WRITE command. -/
def writeData (d : FloppyDrive) (position : Nat) (count : U16) : FloppyDrive :=
  { d with medium := fun a =>
      if 512 * position ≤ a ∧ a < 512 * position + (count.toNat + 1) then
        d.bounce (a - 512 * position)
      else d.medium a }

end FloppyDrive

/-- The checks of `Results[1]`. -/
def checkStatus (st1 : U8) : Except FloppyStop Unit :=
  if st1 &&& 0x80 ≠ 0 then .error (.status st1)
  else if st1 &&& 0x40 ≠ 0 then .error (.status st1)
  else if st1 &&& 2 ≠ 0 then .error (.status st1)
  else .ok ()

/-! ## Reading -/

def readChunk (d : FloppyDrive) (position : Nat) (count : U32) (st1 : U8) :
    Except FloppyStop FloppyDrive := do
  checkStatus st1
  return d.readData position (isaDMATransferTo count)

/-- The loop for transfers of more than 64 KiB, `k` rounds of it. -/
def readChunks (position : Nat) (count : U32) (st1 : Nat → U8) :
    Nat → FloppyDrive → (Nat → U8) → Except FloppyStop (FloppyDrive × (Nat → U8))
  | 0, d, buffer => .ok (d, buffer)
  | k + 1, d, buffer => do
    let d ← readChunk d position count (st1 k)
    readChunks position count st1 k d (copyBytes d.bounce 0x10000 buffer)

def floppyReadCHS (d : FloppyDrive) (cylinder head sector : U8) (buffer : Nat → U8)
    (sectorCount : U16) (st1 : Nat → U8) : Except FloppyStop (FloppyDrive × (Nat → U8)) :=
  let d := { d with bounce := fun _ => 0 }
  let position := d.info.position cylinder head sector
  let transferCount := sectorCount.toNat * 512
  if 0x10000 < transferCount then do
    let count := BitVec.ofNat 32 (transferCount % 0x10000) - 1
    let rounds := transferCount / 0x10000
    let (d, buffer) ← readChunks position count st1 rounds d buffer
    if 1 < transferCount % 0x10000 then do
      let d ← readChunk d position count (st1 rounds)
      return (d, copyBytes d.bounce (transferCount % 0x10000) buffer)
    else return (d, buffer)
  else do
    let d ← readChunk d position (BitVec.ofNat 32 transferCount - 1) (st1 0)
    return (d, copyBytes d.bounce transferCount buffer)

/-! ## Writing -/

def writeChunk (d : FloppyDrive) (position : Nat) (count : U32) (st1 : U8) :
    Except FloppyStop FloppyDrive := do
  checkStatus st1
  return d.writeData position (isaDMATransferFrom count)

def writeChunks (position : Nat) (count : U32) (st1 : Nat → U8) (buffer : Nat → U8) :
    Nat → FloppyDrive → Except FloppyStop FloppyDrive
  | 0, d => .ok d
  | k + 1, d => do
    let d ← writeChunk { d with bounce := copyBytes buffer 0x10000 d.bounce } position count (st1 k)
    writeChunks position count st1 buffer k d

def floppyWriteCHS (d : FloppyDrive) (cylinder head sector : U8) (buffer : Nat → U8)
    (sectorCount : U16) (st1 : Nat → U8) : Except FloppyStop FloppyDrive :=
  let d := { d with bounce := fun _ => 0 }
  let position := d.info.position cylinder head sector
  let transferCount := sectorCount.toNat * 512
  if 0x10000 < transferCount then do
    let count := BitVec.ofNat 32 (transferCount % 0x10000)
    let rounds := transferCount / 0x10000
    let d ← writeChunks position count st1 buffer rounds d
    if 1 < transferCount % 0x10000 then
      writeChunk { d with bounce := copyBytes buffer (transferCount % 0x10000) d.bounce } position
        count (st1 rounds)
    else return d
  else
    writeChunk { d with bounce := copyBytes buffer transferCount d.bounce } position
      (BitVec.ofNat 32 transferCount) (st1 0)

/-! ## By LBA -/

/-- The three bytes of a sector's address that a command takes. -/
def floppyCHS (info : FloppyInfo) (lba : U64) : Except FloppyStop (U8 × U8 × U8) :=
  if info.headCount = 0 ∨ info.sectorMax = 0 then .error .divideError
  else
    let chs := floppyLBAToCHS info lba
    .ok (chs.cylinder.setWidth 8, chs.head.setWidth 8, chs.sector.setWidth 8)

def floppyReadLBA (d : FloppyDrive) (lba : U64) (buffer : Nat → U8) (sectorCount : U16)
    (st1 : Nat → U8) : Except FloppyStop (FloppyDrive × (Nat → U8)) := do
  let (cylinder, head, sector) ← floppyCHS d.info lba
  floppyReadCHS d cylinder head sector buffer sectorCount st1

def floppyWriteLBA (d : FloppyDrive) (lba : U64) (buffer : Nat → U8) (sectorCount : U16)
    (st1 : Nat → U8) : Except FloppyStop FloppyDrive := do
  let (cylinder, head, sector) ← floppyCHS d.info lba
  floppyWriteCHS d cylinder head sector buffer sectorCount st1

/-! ## The parts of an address -/

section Parts

variable {info : FloppyInfo} {lba : U64} (heads : 0 < info.headCount.toNat)
  (sectors : 0 < info.sectorMax.toNat)

/-- Three divisions take a number apart. -/
theorem split_sector (x h s : Nat) : (x / (h * s) * h + x / s % h) * s + x % s = x := by
  have nested : x / s / h = x / (h * s) := by rw [Nat.div_div_eq_div_mul, Nat.mul_comm]
  have outer := Nat.div_add_mod (x / s) h
  have inner := Nat.div_add_mod x s
  rw [nested, Nat.mul_comm] at outer
  rw [outer, Nat.mul_comm, inner]

include heads sectors

/-- Nothing is lost in the 16-bit fields unless the cylinder is too large. -/
theorem floppyLBAToCHS_toNat
    (fits : lba.toNat / (info.headCount.toNat * info.sectorMax.toNat) < 2 ^ 16) :
    (floppyLBAToCHS info lba).cylinder.toNat =
        lba.toNat / (info.headCount.toNat * info.sectorMax.toNat) ∧
      (floppyLBAToCHS info lba).head.toNat =
        lba.toNat / info.sectorMax.toNat % info.headCount.toNat ∧
      (floppyLBAToCHS info lba).sector.toNat = lba.toNat % info.sectorMax.toNat + 1 := by
  have heads' := info.headCount.isLt
  have sectors' := info.sectorMax.isLt
  have product : info.headCount.toNat * info.sectorMax.toNat < 2 ^ 64 := by
    have := Nat.mul_lt_mul'' heads' sectors'
    omega
  have head := Nat.mod_lt (lba.toNat / info.sectorMax.toNat) heads
  have sector := Nat.mod_lt lba.toNat sectors
  simp only [floppyLBAToCHS, BitVec.toNat_setWidth, BitVec.toNat_udiv, BitVec.toNat_umod,
    BitVec.toNat_mul, BitVec.toNat_add]
  rw [Nat.mod_eq_of_lt (by omega : info.headCount.toNat < 2 ^ 64),
    Nat.mod_eq_of_lt (by omega : info.sectorMax.toNat < 2 ^ 64), Nat.mod_eq_of_lt product]
  refine ⟨Nat.mod_eq_of_lt fits, Nat.mod_eq_of_lt (by omega), ?_⟩
  change (lba.toNat % info.sectorMax.toNat + 1) % 2 ^ 64 % 2 ^ 16 = _
  omega

theorem floppyCHS_eq : floppyCHS info lba = .ok ((floppyLBAToCHS info lba).cylinder.setWidth 8,
    (floppyLBAToCHS info lba).head.setWidth 8, (floppyLBAToCHS info lba).sector.setWidth 8) := by
  have nonzero {x : U8} (h : 0 < x.toNat) : x ≠ 0 := fun zero => by simp [zero] at h
  rw [floppyCHS, if_neg (not_or.mpr ⟨nonzero heads, nonzero sectors⟩)]

end Parts

end ChudOS
