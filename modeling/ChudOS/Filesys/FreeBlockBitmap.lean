import ChudOS.FloppyTransfer

/-!
# The bitmap of free blocks

`GemFS_FBB_GetBlock` and `GemFS_FBB_SetBlock` over the floppy driver. Both read a block of the
bitmap into `FBB_Block`, which keeps what it held behind the sectors read.

## Main definitions

* `Partition` — what the functions know of a partition.
* `held` — what the disk says of a block.
* `FaithfulSet` — setting a block adds it, and nothing else, to the set of blocks in use.
-/

namespace ChudOS.FBB

structure Partition where
  lbaStart : U32
  sectorCount : U32
  /-- `Block_Size` in the main entry. -/
  blockSize : U16

structure State where
  drive : FloppyDrive
  /-- `FBB_Block` and the memory behind it. -/
  block : Nat → U8
  /-- No access has left the 4096 bytes of `FBB_Block`. -/
  inside : Bool

namespace Partition

def blockToLBA (p : Partition) (block : U64) : U64 :=
  block * (if p.blockSize = 0 then 1 else p.blockSize.setWidth 64) + p.lbaStart.setWidth 64

def tBlock (p : Partition) (block : U64) : U64 := block / (p.blockSize.setWidth 64 * 512)

def tOffset (p : Partition) (block : U64) : U64 := block / p.blockSize.setWidth 64

/-- The blocks of the partition are those below this. -/
def blocks (p : Partition) : Nat := p.sectorCount.toNat / p.blockSize.toNat

/-- A byte of the medium in blocks 4 and 5, the ones that the formatter sets aside. -/
def SetAside (p : Partition) (a : Nat) : Prop :=
  512 * (p.lbaStart.toNat + 4 * p.blockSize.toNat) ≤ a ∧
    a < 512 * (p.lbaStart.toNat + min 6 p.blocks * p.blockSize.toNat)

end Partition

def tBit (block : U64) : U64 := block % 8

/-- An access to `FBB_Block[i]`. -/
def State.touch (s : State) (i : Nat) : State :=
  { s with inside := s.inside && decide (i < 4096) }

/-- A transfer of as many bytes between the drive and `FBB_Block`. -/
def State.span (s : State) (n : Nat) : State :=
  { s with inside := s.inside && decide (n ≤ 4096) }

section Calls

/-! The results that the controller reports for its commands are a parameter. -/

variable (p : Partition) (st1 : Nat → U8)

def readBitmap (block : U64) (s : State) : Except FloppyStop State := do
  let (drive, bytes) ←
    floppyReadLBA s.drive (p.blockToLBA (p.tBlock block + 4)) s.block p.blockSize st1
  return { s with drive, block := bytes }.span (512 * p.blockSize.toNat)

def writeBitmap (block : U64) (s : State) : Except FloppyStop State := do
  let drive ← floppyWriteLBA s.drive (p.blockToLBA (p.tBlock block + 4)) s.block p.blockSize st1
  return { s with drive }.span (512 * p.blockSize.toNat)

/-- `GemFS_FBB_GetBlock`. -/
def getBlock (block : U64) (s : State) : Except FloppyStop (State × Bool) :=
  if p.blockSize = 0 then .error .divideError
  else do
    let offset := (p.tOffset block).toNat
    let s ← readBitmap p st1 block s
    return (s.touch offset, (s.block offset >>> (tBit block).toNat) &&& 1 == 1)

/-- `GemFS_FBB_SetBlock`. -/
def setBlock (block : U64) (s : State) : Except FloppyStop State :=
  if p.blockSize = 0 then .error .divideError
  else do
    let offset := (p.tOffset block).toNat
    let s ← readBitmap p st1 block s
    let bytes := Function.update s.block offset
      (s.block offset ||| (1 : U8) <<< (tBit block).toNat)
    writeBitmap p st1 block ({ s with block := bytes }.touch offset)

/-- `GetBlock` returns `x` and stays in the buffer. -/
def Sees (s : State) (block : U64) (x : Bool) : Prop :=
  ∃ t, getBlock p st1 block s = .ok (t, x) ∧ t.inside = true

/-- A call of `SetBlock` adds `b` to the blocks in use, whatever is in the buffer afterwards. -/
structure Adds (s : State) (b : U64) (s' : State) : Prop where
  run : setBlock p st1 b s = .ok s'
  inside : s'.inside = true
  frame : ∀ a, ¬ p.SetAside a → s'.drive.medium a = s.drive.medium a
  bits : ∀ c, c.toNat < p.blocks → ∃ x, Sees p st1 s c x ∧
    ∀ buffer, Sees p st1 { s' with block := buffer } c (if c = b then true else x)

end Calls

/-- The bitmap is a set of blocks, on every disk of this geometry and without an error bit. -/
def FaithfulSet (p : Partition) (info : FloppyInfo) : Prop :=
  ∀ st1 : Nat → U8, (∀ k, checkStatus (st1 k) = .ok ()) → ∀ s : State, s.drive.info = info →
    s.inside = true → ∀ b, b.toNat < p.blocks → ∃ s', Adds p st1 s b s'

open Outcome

namespace Partition

/-- The sector in which the driver looks for a block of the bitmap. -/
def place (p : Partition) (info : FloppyInfo) (b : U64) : Nat :=
  info.startOf (p.blockToLBA (p.tBlock b + 4))

/-- A byte of a block of the bitmap as it is read. The last one is not. -/
def held (p : Partition) (info : FloppyInfo) (medium : Nat → U8) (b : U64) (i : Nat) : U8 :=
  if i + 1 < 512 * p.blockSize.toNat then medium (512 * p.place info b + i) else 0

end Partition

variable {p : Partition} {info : FloppyInfo} {st1 : Nat → U8} {s s' t : State} {b : U64} {x : Bool}

/-! ## Numbers -/

section Numbers

variable (fits : b.toNat < 2 ^ 32)

theorem toNat_tOffset : (p.tOffset b).toNat = b.toNat / p.blockSize.toNat := by
  have size := p.blockSize.isLt
  rw [Partition.tOffset, BitVec.toNat_udiv, BitVec.toNat_setWidth, Nat.mod_eq_of_lt (by omega)]

theorem toNat_tBlock : (p.tBlock b).toNat = b.toNat / (512 * p.blockSize.toNat) := by
  have size := p.blockSize.isLt
  rw [Partition.tBlock, BitVec.toNat_udiv, BitVec.toNat_mul, BitVec.toNat_setWidth]
  change b.toNat / (p.blockSize.toNat % 2 ^ 64 * 512 % 2 ^ 64) = _
  rw [Nat.mod_eq_of_lt (by omega : p.blockSize.toNat < 2 ^ 64), Nat.mod_eq_of_lt (by omega),
    Nat.mul_comm]

theorem toNat_tBit : (tBit b).toNat = b.toNat % 8 := by
  rw [tBit, BitVec.toNat_umod]
  rfl

theorem blocks_lt : p.blocks < 2 ^ 32 :=
  Nat.lt_of_le_of_lt (Nat.div_le_self ..) p.sectorCount.isLt

include fits in
theorem toNat_lba (pos : 0 < p.blockSize.toNat) :
    (p.blockToLBA (p.tBlock b + 4)).toNat =
      p.lbaStart.toNat + (b.toNat / (512 * p.blockSize.toNat) + 4) * p.blockSize.toNat := by
  have size := p.blockSize.isLt
  have start := p.lbaStart.isLt
  have nonzero : p.blockSize ≠ 0 := by
    intro zero
    simp [zero] at pos
  have small : b.toNat / (512 * p.blockSize.toNat) < 2 ^ 32 :=
    Nat.lt_of_le_of_lt (Nat.div_le_self ..) fits
  have product : (b.toNat / (512 * p.blockSize.toNat) + 4) * p.blockSize.toNat <
      (2 ^ 32 + 4) * 2 ^ 16 := Nat.mul_lt_mul'' (by omega) size
  rw [Partition.blockToLBA, if_neg nonzero, BitVec.toNat_add, BitVec.toNat_mul, BitVec.toNat_add,
    toNat_tBlock, BitVec.toNat_setWidth, BitVec.toNat_setWidth]
  change ((b.toNat / (512 * p.blockSize.toNat) + 4) % 2 ^ 64 * (p.blockSize.toNat % 2 ^ 64) %
    2 ^ 64 + p.lbaStart.toNat % 2 ^ 64) % 2 ^ 64 = _
  rw [Nat.mod_eq_of_lt (by omega : b.toNat / (512 * p.blockSize.toNat) + 4 < 2 ^ 64),
    Nat.mod_eq_of_lt (by omega : p.blockSize.toNat < 2 ^ 64)]
  omega

end Numbers

theorem bit_eq (y : U8) (k : Nat) : ((y >>> k) &&& 1 == 1) = y.getLsbD k := by
  have one : (y >>> k) &&& 1 = if y.getLsbD k then 1 else 0 := by
    ext i h
    cases i <;> cases hk : y.getLsbD k <;> simp_all [BitVec.getElem_one]
  rw [one]
  cases y.getLsbD k <;> rfl

theorem getLsbD_set (y : U8) {j k : Nat} (lt : j < 8) :
    (y ||| (1 : U8) <<< k).getLsbD j = (y.getLsbD j || decide (j = k)) := by
  rw [BitVec.getLsbD_or, BitVec.getLsbD_shiftLeft]
  change (_ || (decide (j < 8) && !decide (j < k) && BitVec.getLsbD 1#8 (j - k))) = _
  rw [BitVec.getLsbD_one]
  grind

/-! ## What the calls do -/

/-- The transfers of a call of `SetBlock`, and the state in which it ends. -/
theorem setBlock_parts (run : setBlock p st1 b s = .ok s') : p.blockSize ≠ 0 ∧
    ∃ d bytes d', floppyReadLBA s.drive (p.blockToLBA (p.tBlock b + 4)) s.block p.blockSize st1 =
        .ok (d, bytes) ∧
      floppyWriteLBA d (p.blockToLBA (p.tBlock b + 4)) (Function.update bytes (p.tOffset b).toNat
        (bytes (p.tOffset b).toNat ||| (1 : U8) <<< (tBit b).toNat)) p.blockSize st1 = .ok d' ∧
      s'.drive = d' ∧ s'.inside = (s.inside && decide (512 * p.blockSize.toNat ≤ 4096) &&
        decide ((p.tOffset b).toNat < 4096) && decide (512 * p.blockSize.toNat ≤ 4096)) := by
  rw [setBlock] at run
  split_ifs at run with zero
  obtain ⟨s₁, read, rest⟩ := bind_eq_ok.mp run
  obtain ⟨⟨d, bytes⟩, fetch, done⟩ := bind_eq_ok.mp read
  obtain rfl := Except.ok.inj done
  obtain ⟨d', record, done⟩ := bind_eq_ok.mp rest
  obtain rfl := Except.ok.inj done
  exact ⟨zero, d, bytes, d', fetch, record, rfl, rfl⟩

theorem getBlock_parts (run : getBlock p st1 b s = .ok (t, x)) : p.blockSize ≠ 0 ∧
    ∃ d bytes, floppyReadLBA s.drive (p.blockToLBA (p.tBlock b + 4)) s.block p.blockSize st1 =
        .ok (d, bytes) ∧
      x = (bytes (p.tOffset b).toNat).getLsbD (tBit b).toNat ∧
      t.inside = (s.inside && decide (512 * p.blockSize.toNat ≤ 4096) &&
        decide ((p.tOffset b).toNat < 4096)) := by
  rw [getBlock] at run
  split_ifs at run with zero
  obtain ⟨s₁, read, rest⟩ := bind_eq_ok.mp run
  obtain ⟨⟨d, bytes⟩, fetch, done⟩ := bind_eq_ok.mp read
  obtain rfl := Except.ok.inj done
  obtain ⟨rfl, rfl⟩ := Prod.mk.inj (Except.ok.inj rest)
  exact ⟨zero, d, bytes, fetch, bit_eq .., rfl⟩

/-- The drive answers, unless it has no heads or no sectors. -/
theorem geometry_of_read {d d' : FloppyDrive} {lba : U64} {dst bytes : Nat → U8} {count : U16}
    (run : floppyReadLBA d lba dst count st1 = .ok (d', bytes)) :
    0 < d.info.headCount.toNat ∧ 0 < d.info.sectorMax.toNat := by
  obtain ⟨chs, address, -⟩ := bind_eq_ok.mp run
  rw [floppyCHS] at address
  split_ifs at address with none
  have nonzero {y : U8} (h : y ≠ 0) : 0 < y.toNat := by
    apply Nat.pos_of_ne_zero
    intro zero
    exact h (BitVec.eq_of_toNat_eq zero)
  exact ⟨nonzero (not_or.mp none).1, nonzero (not_or.mp none).2⟩

section Small

variable (small : p.blockSize.toNat ≤ 8)

theorem size_pos (nonzero : p.blockSize ≠ 0) : 0 < p.blockSize.toNat := by
  apply Nat.pos_of_ne_zero
  intro zero
  exact nonzero (BitVec.eq_of_toNat_eq zero)

include small

theorem bytesWritten_size : bytesWritten p.blockSize.toNat = 512 * p.blockSize.toNat := by
  rw [bytesWritten, if_pos (by omega), Nat.mul_comm]

/-- What a read leaves in the buffer. -/
theorem read_held {d : FloppyDrive} {bytes : Nat → U8} (nonzero : p.blockSize ≠ 0)
    (run : floppyReadLBA s.drive (p.blockToLBA (p.tBlock b + 4)) s.block p.blockSize st1 =
      .ok (d, bytes)) {i : Nat} (lt : i < 512 * p.blockSize.toNat) :
    bytes i = p.held s.drive.info s.drive.medium b i := by
  have fetched := floppyReadLBA_fetched (size_pos nonzero) run i
  rw [bytesWritten_size small, if_pos (by omega)] at fetched
  rw [fetched, Partition.held]
  split_ifs with early <;> first | rfl | omega

theorem getBlock_value (run : getBlock p st1 b s = .ok (t, x))
    (lt : b.toNat / p.blockSize.toNat < 512 * p.blockSize.toNat) :
    x = (p.held s.drive.info s.drive.medium b (b.toNat / p.blockSize.toNat)).getLsbD
      (b.toNat % 8) := by
  obtain ⟨nonzero, d, bytes, read, value, -⟩ := getBlock_parts run
  rw [toNat_tOffset, toNat_tBit] at value
  rw [value, read_held small nonzero read lt]

/-- Byte by byte, the medium after a call of `SetBlock`. -/
theorem setBlock_medium (run : setBlock p st1 b s = .ok s') (a : Nat) : s'.drive.medium a =
    if 512 * p.place s.drive.info b ≤ a ∧
        a < 512 * p.place s.drive.info b + 512 * p.blockSize.toNat then
      if a - 512 * p.place s.drive.info b = b.toNat / p.blockSize.toNat then
        p.held s.drive.info s.drive.medium b (a - 512 * p.place s.drive.info b) |||
          (1 : U8) <<< (b.toNat % 8)
      else p.held s.drive.info s.drive.medium b (a - 512 * p.place s.drive.info b)
    else s.drive.medium a := by
  obtain ⟨nonzero, d, bytes, d', read, wrote, rfl, -⟩ := setBlock_parts run
  have disk := floppyReadLBA_sameDisk read
  have record := (floppyWriteLBA_recorded (size_pos nonzero) wrote).medium a
  rw [bytesWritten_size small, disk.1, disk.2, toNat_tOffset, toNat_tBit] at record
  refine record.trans ?_
  change (if 512 * p.place s.drive.info b ≤ a ∧
    a < 512 * p.place s.drive.info b + 512 * p.blockSize.toNat then _ else _) = _
  split_ifs with here marked
  · change Function.update _ _ _ (a - 512 * p.place s.drive.info b) = _
    rw [← marked, Function.update_self, read_held small nonzero read (by omega)]
  · change Function.update _ _ _ (a - 512 * p.place s.drive.info b) = _
    rw [Function.update_of_ne marked, read_held small nonzero read (by omega)]
  · rfl

end Small

end ChudOS.FBB
