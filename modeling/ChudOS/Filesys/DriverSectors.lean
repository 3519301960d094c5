import ChudOS.Filesys.FreeBlockBitmap
import ChudOS.Filesys.Volume

/-!
# The sectors that the driver moves

The sector input and output of the file system is what the floppy driver does, and so are its
functions on the bitmap.

## Main definitions

* `OnDrive` — the volume is on the drive, as far as the commands can name its sectors.
-/

namespace ChudOS.GemFS

open Outcome

structure OnDrive (s : Volume) (d : FloppyDrive) : Prop where
  heads : 0 < d.info.headCount.toNat
  sectors : 0 < d.info.sectorMax.toNat
  same : ∀ k < 256 * (d.info.headCount.toNat * d.info.sectorMax.toNat), ∀ i < 512,
    d.medium (512 * k + i) = s.sectors (BitVec.ofNat 64 k) i

/-- A transfer of so many sectors ends before the last cylinder that a command can name. -/
def Reaches (d : FloppyDrive) (lba : U64) (count : Nat) : Prop :=
  lba.toNat + count ≤ 256 * (d.info.headCount.toNat * d.info.sectorMax.toNat)

variable [SectorAccess] {s : Volume} {d d' : FloppyDrive} {lba b : U64} {count : U16}
  {src dst dst' : Nat → U8} {st1 : Nat → U8}

section Transfer

variable (lossy : SectorAccess.lossless = false) (h : OnDrive s d) (pos : 0 < count.toNat)
  (reaches : Reaches d lba count.toNat)
include lossy pos

theorem bytesWritten_eq : bytesWritten count.toNat = 512 * sectorsMoved count := by
  have driver : ¬ SectorAccess.lossless = true := by simp [lossy]
  rw [sectorsMoved, if_neg driver, bytesWritten, moved]
  split_ifs <;> omega

theorem sectorsMoved_le : sectorsMoved count ≤ count.toNat := by
  have size := bytesWritten_eq lossy pos
  have := bytesWritten_le count.toNat
  omega

include h reaches

omit [SectorAccess] lossy in
theorem OnDrive.startOf : d.info.startOf lba = lba.toNat := by
  rw [Reaches] at reaches
  refine FloppyInfo.startOf_eq h.heads h.sectors (Nat.div_lt_of_lt_mul ?_)
  rw [Nat.mul_comm]
  omega

/-- What is read from the drive is what the file system reads. -/
theorem OnDrive.read (run : floppyReadLBA d lba dst count st1 = .ok (d', dst')) :
    OnDrive s d' ∧ dst' = getSectors s lba dst count := by
  have disk := floppyReadLBA_sameDisk run
  have fetch := floppyReadLBA_fetched pos run
  have le := sectorsMoved_le lossy pos
  refine ⟨⟨by rw [disk.1]; exact h.heads, by rw [disk.1]; exact h.sectors, ?_⟩, funext fun i => ?_⟩
  · rw [disk.1, disk.2]
    exact h.same
  rw [fetch, h.startOf pos reaches, bytesWritten_eq lossy pos, getSectors]
  simp only [lossy, Bool.false_eq_true, false_or]
  by_cases copied : i < 512 * count.toNat ∧ i < 0x10000
  · rw [if_pos (by omega), if_pos copied]
    by_cases read : i + 1 < 512 * sectorsMoved count
    · have place : lba + BitVec.ofNat 64 (i / 512) = BitVec.ofNat 64 (lba.toNat + i / 512) := by
        rw [BitVec.ofNat_add, BitVec.ofNat_toNat, BitVec.setWidth_eq]
      rw [Reaches] at reaches
      rw [if_pos (by omega), if_pos read, place, ← h.same _ (by omega) _ (Nat.mod_lt i (by decide))]
      congr 1
      omega
    · rw [if_neg (by omega), if_neg read]
  · rw [if_neg (by omega), if_neg copied]

/-- What is written to the drive is what the file system writes. -/
theorem OnDrive.write (run : floppyWriteLBA d lba src count st1 = .ok d') :
    OnDrive (putSectors s lba src count) d' := by
  have record := floppyWriteLBA_recorded pos run
  have le := sectorsMoved_le lossy pos
  have some_sector : count ≠ 0 := fun zero => by
    rw [zero] at pos
    exact absurd pos (by decide)
  rw [h.startOf pos reaches, bytesWritten_eq lossy pos] at record
  refine ⟨by rw [record.info]; exact h.heads, by rw [record.info]; exact h.sectors, ?_⟩
  rw [record.info]
  intro k hk i hi
  have heads := d.info.headCount.isLt
  have sectors := d.info.sectorMax.isLt
  have cylinders : d.info.headCount.toNat * d.info.sectorMax.toNat < 2 ^ 8 * 2 ^ 8 :=
    Nat.mul_lt_mul'' heads sectors
  rw [Reaches] at reaches
  have offset : (BitVec.ofNat 64 k - lba).toNat =
      if lba.toNat ≤ k then k - lba.toNat else 2 ^ 64 - (lba.toNat - k) := by
    rw [BitVec.toNat_sub, BitVec.toNat_ofNat]
    split_ifs <;> omega
  rw [record.medium, putSectors]
  dsimp only
  rw [offset]
  by_cases inside : lba.toNat ≤ k ∧ k < lba.toNat + sectorsMoved count
  · rw [if_pos (by omega), if_pos inside.1, if_pos (by omega), if_neg some_sector]
    congr 1
    omega
  · rw [if_neg (by omega), if_neg (by split_ifs <;> omega)]
    exact h.same k hk i hi

end Transfer

/-! ## The bitmap -/

/-- The buffer shows behind what is read only. -/
theorem getSectors_congr {i : Nat} (inside : i < 512 * count.toNat) (low : i < 0x10000) :
    getSectors s lba dst count i = getSectors s lba src count i := by
  have copied : i < 512 * count.toNat ∧ (SectorAccess.lossless ∨ i < 0x10000) := ⟨inside, .inr low⟩
  rw [getSectors, getSectors, if_pos copied, if_pos copied]

/-- The buffer behind what is written does not count. -/
theorem putSectors_congr (same : ∀ i < 512 * sectorsMoved count, dst i = src i) :
    ∀ l, ∀ i < 512, (putSectors s lba dst count).sectors l i = (putSectors s lba src count).sectors l i := by
  intro l i hi
  rw [putSectors, putSectors]
  dsimp only
  split_ifs with inside
  · rfl
  · exact same _ (by omega)
  · rfl

section Bitmap

variable {p : FBB.Partition} {x x' t : FBB.State} {y : Bool} (lossy : SectorAccess.lossless = false)
  (h : OnDrive s x.drive) (size : p.blockSize = s.main.blockSize) (start : p.lbaStart = s.lbaStart)
  (reaches : Reaches x.drive (bitmapLBA s b) s.main.blockSize.toNat)

omit [SectorAccess] in
include size start in
theorem lba_eq : p.blockToLBA (p.tBlock b + 4) = bitmapLBA s b := by
  have zero : s.main.blockSize = 0 ↔ blockSize s = 0 := by
    rw [blockSize]
    constructor
    · intro eq
      rw [eq]
      rfl
    · intro eq
      have eq := congrArg BitVec.toNat eq
      have small := s.main.blockSize.isLt
      rw [BitVec.toNat_setWidth, Nat.mod_eq_of_lt (by omega)] at eq
      exact BitVec.eq_of_toNat_eq eq
  rw [FBB.Partition.blockToLBA, FBB.Partition.tBlock, size, start, bitmapLBA, blockToLBA, blockSize]
  simp only [zero, blockSize]

include lossy h size start reaches

/-- What the kernel's function on the driver says of a block is what the file system's says. -/
theorem OnDrive.getBlock (inside : (b / blockSize s).toNat < 512 * (blockSize s).toNat)
    (low : (b / blockSize s).toNat < 0x10000) (run : FBB.getBlock p st1 b x = .ok (t, y)) :
    OnDrive s t.drive ∧ y = fbbGetBlock s b := by
  have count : (blockSize s).toNat = s.main.blockSize.toNat := by
    have small := s.main.blockSize.isLt
    rw [blockSize, BitVec.toNat_setWidth, Nat.mod_eq_of_lt (by omega)]
  have offset : p.tOffset b = b / blockSize s := by rw [FBB.Partition.tOffset, size, blockSize]
  rw [FBB.getBlock] at run
  split_ifs at run with zero
  obtain ⟨v, read, rest⟩ := bind_eq_ok.mp run
  obtain ⟨⟨d, bytes⟩, fetch, done⟩ := bind_eq_ok.mp read
  obtain rfl := Except.ok.inj done
  obtain ⟨rfl, rfl⟩ := Prod.mk.inj (Except.ok.inj rest)
  rw [lba_eq size start, size] at fetch
  obtain ⟨on, rfl⟩ := h.read lossy (by omega) reaches fetch
  refine ⟨on, ?_⟩
  rw [FBB.bit_eq, FBB.toNat_tBit, fbbGetBlock]
  rw [decide_eq_true inside, Bool.true_and, offset, readBitmap]
  rw [count] at inside
  exact congrArg (fun z : U8 => z.getLsbD (b.toNat % 8)) (getSectors_congr inside low)

/-- So is what it writes. -/
theorem OnDrive.setBlock (run : FBB.setBlock p st1 b x = .ok x') :
    ∃ s', fbbSetBlock s b = .ok s' ∧ OnDrive s' x'.drive := by
  obtain ⟨zero, d, bytes, d', fetch, wrote, rfl, -⟩ := FBB.setBlock_parts run
  have offset : p.tOffset b = b / blockSize s := by rw [FBB.Partition.tOffset, size, blockSize]
  rw [size] at zero
  have pos : 0 < s.main.blockSize.toNat := Nat.pos_of_ne_zero fun eq =>
    zero (BitVec.eq_of_toNat_eq eq)
  have nonzero : blockSize s ≠ 0 := fun eq => by
    have eq := congrArg BitVec.toNat eq
    have small := s.main.blockSize.isLt
    rw [blockSize, BitVec.toNat_setWidth, Nat.mod_eq_of_lt (by omega)] at eq
    exact absurd eq (Nat.ne_of_gt pos)
  rw [lba_eq size start, size] at fetch wrote
  have info := (floppyReadLBA_sameDisk fetch).1
  obtain ⟨on, rfl⟩ := h.read lossy pos reaches fetch
  have done := on.write lossy pos (by rw [Reaches, info]; exact reaches) wrote
  refine ⟨_, by rw [fbbSetBlock, if_neg nonzero], done.heads, done.sectors, fun k hk i hi => ?_⟩
  rw [done.same k hk i hi]
  refine putSectors_congr (fun j hj => ?_) _ i hi
  have le := sectorsMoved_le lossy pos
  have low : j < 0x10000 := by
    have := bytesWritten_le s.main.blockSize.toNat
    rw [bytesWritten_eq lossy pos] at this
    omega
  have same : getSectors s (bitmapLBA s b) x.block s.main.blockSize j = readBitmap s b j :=
    getSectors_congr (by omega) low
  rw [setBit, Function.update_apply, Function.update_apply, offset, FBB.toNat_tBit]
  split_ifs with here
  · rw [← here, same]
  · exact same

end Bitmap

end ChudOS.GemFS
