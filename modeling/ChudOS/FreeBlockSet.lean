import ChudOS.Filesys.FreeBlockBitmap
import Mathlib.Tactic.IntervalCases

/-!
# The set of blocks in use

The byte for block `b` is byte `b / BS` of the buffer, whichever sectors were read for `b`. A byte
past these is lost with the buffer, and the last one of them is never read. With more than eight
sectors in a block the transfers leave the buffer. So the bitmap is a set for small partitions.
-/

namespace ChudOS.FBB

open Outcome

variable {p : Partition} {info : FloppyInfo} {st1 : Nat → U8} {s s' : State} {b c : U64}

/-! ## Calls that return -/

section Done

variable (heads : 0 < s.drive.info.headCount.toNat) (sectors : 0 < s.drive.info.sectorMax.toNat)
  (good : ∀ k, checkStatus (st1 k) = .ok ()) (nonzero : p.blockSize ≠ 0)

theorem ne_zero_of_pos {y : U8} (h : 0 < y.toNat) : y ≠ 0 := by
  intro zero
  simp [zero] at h

include heads sectors good nonzero

theorem setBlock_done : ∃ s', setBlock p st1 b s = .ok s' := by
  obtain ⟨d, bytes, read⟩ := @floppyReadLBA_done s.drive s.block (p.blockToLBA (p.tBlock b + 4))
    p.blockSize st1 (ne_zero_of_pos heads) (ne_zero_of_pos sectors) good
  have disk := floppyReadLBA_sameDisk read
  obtain ⟨d', wrote⟩ := @floppyWriteLBA_done d (Function.update bytes (p.tOffset b).toNat
      (bytes (p.tOffset b).toNat ||| (1 : U8) <<< (tBit b).toNat)) (p.blockToLBA (p.tBlock b + 4))
    p.blockSize st1 (by rw [disk.1]; exact ne_zero_of_pos heads)
    (by rw [disk.1]; exact ne_zero_of_pos sectors) good
  exact ⟨_, (if_neg nonzero).trans (bind_eq_ok.mpr ⟨_, bind_eq_ok.mpr ⟨_, read, rfl⟩,
    bind_eq_ok.mpr ⟨d', wrote, rfl⟩⟩)⟩

theorem getBlock_done : ∃ t x, getBlock p st1 b s = .ok (t, x) := by
  obtain ⟨d, bytes, read⟩ := @floppyReadLBA_done s.drive s.block (p.blockToLBA (p.tBlock b + 4))
    p.blockSize st1 (ne_zero_of_pos heads) (ne_zero_of_pos sectors) good
  exact ⟨_, _, (if_neg nonzero).trans (bind_eq_ok.mpr ⟨_, bind_eq_ok.mpr ⟨_, read, rfl⟩, rfl⟩)⟩

/-- With small blocks a byte among the sectors read is what `GetBlock` sees. -/
theorem sees_held (small : p.blockSize.toNat ≤ 8) (inside : s.inside = true)
    (lt : b.toNat / p.blockSize.toNat < 512 * p.blockSize.toNat) :
    Sees p st1 s b
      ((p.held s.drive.info s.drive.medium b (b.toNat / p.blockSize.toNat)).getLsbD
        (b.toNat % 8)) := by
  obtain ⟨t, x, run⟩ := @getBlock_done p st1 s b heads sectors good nonzero
  obtain ⟨-, -, -, -, -, kept⟩ := getBlock_parts run
  rw [getBlock_value small run lt] at run
  refine ⟨t, run, ?_⟩
  rw [kept, inside, toNat_tOffset, decide_eq_true (by omega), decide_eq_true (by omega)]
  rfl

end Done

/-! ## The condition -/

/-- The blocks of the bitmap that are used lie in blocks 4 and 5, on cylinders that the driver can
name, and the bytes for the partition's blocks come before the last one that is read. -/
structure Fits (p : Partition) (info : FloppyInfo) : Prop where
  heads : 0 < info.headCount.toNat
  sectors : 0 < info.sectorMax.toNat
  small : p.blockSize.toNat ≤ 8
  bitmap : 5 ≤ p.blocks
  bytes : p.blocks ≤ (512 * p.blockSize.toNat - 1) * p.blockSize.toNat
  two : p.blocks ≤ 1024 * p.blockSize.toNat
  cylinders : (p.lbaStart.toNat +
    ((p.blocks - 1) / (512 * p.blockSize.toNat) + 4) * p.blockSize.toNat) /
      (info.headCount.toNat * info.sectorMax.toNat) < 256

namespace Fits

variable (fit : Fits p info)

include fit

theorem size_pos : 0 < p.blockSize.toNat := by
  have some_block := fit.bitmap
  rw [Partition.blocks] at some_block
  rcases Nat.eq_zero_or_pos p.blockSize.toNat with zero | pos
  · rw [zero, Nat.div_zero] at some_block
    omega
  · exact pos

theorem offset_lt (lt : b.toNat < p.blocks) :
    b.toNat / p.blockSize.toNat + 1 < 512 * p.blockSize.toNat := by
  have bound := (Nat.div_lt_iff_lt_mul fit.size_pos).mpr (Nat.lt_of_lt_of_le lt fit.bytes)
  exact Nat.lt_sub_iff_add_lt.mp bound

theorem tBlock_le (lt : b.toNat < p.blocks) : b.toNat / (512 * p.blockSize.toNat) ≤ 1 := by
  have two := fit.two
  have pos := fit.size_pos
  exact Nat.le_of_lt_succ ((Nat.div_lt_iff_lt_mul (by omega)).mpr (by omega))

/-- Each block of the bitmap is where it should be. -/
theorem place_eq (lt : b.toNat < p.blocks) : p.place info b =
    p.lbaStart.toNat + (b.toNat / (512 * p.blockSize.toNat) + 4) * p.blockSize.toNat := by
  have below := toNat_lba (b := b) (p := p) (Nat.lt_trans lt blocks_lt) fit.size_pos
  rw [Partition.place, FloppyInfo.startOf_eq fit.heads fit.sectors, below]
  rw [below]
  refine Nat.lt_of_le_of_lt (Nat.div_le_div_right ?_) fit.cylinders
  have le : b.toNat / (512 * p.blockSize.toNat) ≤ (p.blocks - 1) / (512 * p.blockSize.toNat) :=
    Nat.div_le_div_right (by omega)
  gcongr

/-- A byte that a call writes is set aside for the bitmap. -/
theorem setAside {a : Nat} (lt : b.toNat < p.blocks) (le : 512 * p.place info b ≤ a)
    (below : a < 512 * p.place info b + 512 * p.blockSize.toNat) : p.SetAside a := by
  have bitmap := fit.bitmap
  have pos := fit.size_pos
  have few := fit.tBlock_le lt
  have last : b.toNat / (512 * p.blockSize.toNat) + 5 ≤ min 6 p.blocks := by
    rcases Nat.lt_or_ge b.toNat (512 * p.blockSize.toNat) with first | second
    · rw [Nat.div_eq_of_lt first]
      omega
    · omega
  have product := Nat.mul_le_mul_right p.blockSize.toNat last
  rw [fit.place_eq lt, Nat.add_mul] at le below
  rw [Nat.add_mul] at product
  constructor <;> omega

/-- Block, byte and bit tell two blocks apart. -/
theorem eq_of_same_bit (offset : b.toNat / p.blockSize.toNat = c.toNat / p.blockSize.toNat)
    (bit : b.toNat % 8 = c.toNat % 8) : b = c := by
  have small := fit.small
  have pos := fit.size_pos
  apply BitVec.eq_of_toNat_eq
  generalize p.blockSize.toNat = size at *
  interval_cases size <;> omega

end Fits

/-! ## Small partitions -/

/-- After a call of `SetBlock` the disk says that `b` is in use, and of the others what it said. -/
theorem held_setBlock (fit : Fits p s.drive.info) (run : setBlock p st1 b s = .ok s')
    (info : s'.drive.info = s.drive.info) (hb : b.toNat < p.blocks) (hc : c.toNat < p.blocks) :
    (p.held s'.drive.info s'.drive.medium c (c.toNat / p.blockSize.toNat)).getLsbD (c.toNat % 8) =
      if c = b then true
      else (p.held s.drive.info s.drive.medium c (c.toNat / p.blockSize.toNat)).getLsbD
        (c.toNat % 8) := by
  have offset := fit.offset_lt hc
  have bit : c.toNat % 8 < 8 := Nat.mod_lt _ (by decide)
  rw [info, Partition.held, Partition.held, if_pos offset, if_pos offset,
    setBlock_medium fit.small run]
  by_cases same : c.toNat / (512 * p.blockSize.toNat) = b.toNat / (512 * p.blockSize.toNat)
  · have place : p.place s.drive.info c = p.place s.drive.info b := by
      rw [fit.place_eq hc, fit.place_eq hb, same]
    rw [place, if_pos ⟨Nat.le_add_right .., Nat.add_lt_add_left (Nat.lt_of_succ_lt offset) _⟩,
      Nat.add_sub_cancel_left, Partition.held, if_pos offset]
    by_cases marked : c.toNat / p.blockSize.toNat = b.toNat / p.blockSize.toNat
    · rw [if_pos marked, getLsbD_set _ bit]
      by_cases eq : c = b
      · rw [if_pos eq, eq, decide_eq_true rfl, Bool.or_true]
      · have apart : c.toNat % 8 ≠ b.toNat % 8 := fun bit => eq (fit.eq_of_same_bit marked bit)
        rw [if_neg eq, decide_eq_false apart, Bool.or_false]
    · have apart : c ≠ b := fun eq => marked (by rw [eq])
      rw [if_neg marked, if_neg apart]
  · have apart : c ≠ b := fun eq => same (by rw [eq])
    have few := fit.tBlock_le hb
    have few' := fit.tBlock_le hc
    rw [if_neg apart, if_neg]
    rw [fit.place_eq hc, fit.place_eq hb, Nat.add_mul, Nat.add_mul]
    rcases Nat.lt_or_gt_of_ne same with before | after
    · rw [Nat.lt_one_iff.mp (Nat.lt_of_lt_of_le before few),
        Nat.le_antisymm few (Nat.zero_lt_of_lt before)]
      generalize c.toNat / p.blockSize.toNat = o at *
      omega
    · rw [Nat.lt_one_iff.mp (Nat.lt_of_lt_of_le after few'),
        Nat.le_antisymm few' (Nat.zero_lt_of_lt after)]
      generalize c.toNat / p.blockSize.toNat = o at *
      omega

theorem Fits.faithful (fit : Fits p info) : FaithfulSet p info := by
  rintro st1 good s rfl inside b hb
  have nonzero : p.blockSize ≠ 0 := by
    intro zero
    have pos := fit.size_pos
    simp [zero] at pos
  have offset := fit.offset_lt hb
  have small := fit.small
  obtain ⟨s', run⟩ := @setBlock_done p st1 s b fit.heads fit.sectors good nonzero
  obtain ⟨-, d, bytes, d', read, wrote, drive, kept⟩ := setBlock_parts run
  have info : s'.drive.info = s.drive.info := by
    rw [drive, (floppyWriteLBA_recorded fit.size_pos wrote).info, (floppyReadLBA_sameDisk read).1]
  have inside' : s'.inside = true := by
    rw [kept, inside, toNat_tOffset, decide_eq_true (by omega), decide_eq_true (by omega)]
    rfl
  refine ⟨s', run, inside', fun a outside => ?_, fun c hc => ?_⟩
  · rw [setBlock_medium small run, if_neg]
    rintro ⟨le, lt⟩
    exact outside (fit.setAside hb le lt)
  · have early := fit.offset_lt hc
    refine ⟨_, sees_held fit.heads fit.sectors good nonzero small inside (by omega),
      fun buffer => ?_⟩
    rw [← held_setBlock fit run info hb hc]
    have heads := fit.heads
    have sectors := fit.sectors
    rw [← info] at heads sectors
    exact @sees_held p st1 { s' with block := buffer } c heads sectors good nonzero small inside'
      (by omega)

/-! ## Larger ones -/

/-- An empty disk. -/
def emptyState (info : FloppyInfo) : State where
  drive := { info, medium := fun _ => 0, bounce := fun _ => 0 }
  block := fun _ => 0
  inside := true

theorem held_empty (i : Nat) : p.held info (fun _ => 0) b i = 0 := by
  rw [Partition.held]
  split_ifs <;> rfl

theorem one_bit_ne_zero (k : Nat) (lt : k < 8) : (0 : U8) ||| (1 : U8) <<< k ≠ 0 := by
  intro zero
  have bit := getLsbD_set (0 : U8) (j := k) (k := k) lt
  rw [zero] at bit
  simp at bit

/-- A block of the partition from its number. -/
theorem block_of_lt {n : Nat} (lt : n < p.blocks) :
    ∃ b : U64, b.toNat = n ∧ b.toNat < p.blocks := by
  have few := @blocks_lt p
  have number : (BitVec.ofNat 64 n).toNat = n := by
    rw [BitVec.toNat_ofNat]
    omega
  exact ⟨BitVec.ofNat 64 n, number, number.symm ▸ lt⟩

namespace FaithfulSet

variable (faithful : FaithfulSet p info)

include faithful

theorem adds (lt : b.toNat < p.blocks) : ∃ s', Adds p (fun _ => 0) (emptyState info) b s' :=
  faithful _ (fun _ => rfl) _ rfl rfl b lt

/-- A drive that answers, and a buffer that the transfers do not leave. -/
theorem answers (some_block : 0 < p.blocks) : p.blockSize ≠ 0 ∧ 0 < info.headCount.toNat ∧
    0 < info.sectorMax.toNat ∧ p.blockSize.toNat ≤ 8 := by
  obtain ⟨b, -, lt⟩ := block_of_lt some_block
  obtain ⟨s', added⟩ := faithful.adds lt
  obtain ⟨nonzero, d, bytes, d', read, -, -, kept⟩ := setBlock_parts added.run
  obtain ⟨heads, sectors⟩ := geometry_of_read read
  rw [added.inside] at kept
  simp only [Bool.and_eq_true, decide_eq_true_eq, eq_comm (a := true)] at kept
  exact ⟨nonzero, heads, sectors, by omega⟩

/-- The byte in which a block is marked is set aside. -/
theorem marked (some_block : 0 < p.blocks) (lt : b.toNat < p.blocks)
    (offset : b.toNat / p.blockSize.toNat < 512 * p.blockSize.toNat) :
    p.SetAside (512 * p.place info b + b.toNat / p.blockSize.toNat) := by
  obtain ⟨-, -, -, small⟩ := faithful.answers some_block
  obtain ⟨s', added⟩ := faithful.adds lt
  by_contra outside
  have same := added.frame _ outside
  rw [setBlock_medium small added.run, emptyState] at same
  dsimp only at same
  rw [if_pos ⟨Nat.le_add_right .., Nat.add_lt_add_left offset _⟩, Nat.add_sub_cancel_left,
    if_pos rfl, held_empty] at same
  exact one_bit_ne_zero _ (Nat.mod_lt _ (by decide)) same

/-- The last byte of a block of the bitmap would be read as zero. -/
theorem bytes (some_block : 0 < p.blocks) :
    p.blocks ≤ (512 * p.blockSize.toNat - 1) * p.blockSize.toNat := by
  by_contra many
  obtain ⟨nonzero, -, -, small⟩ := faithful.answers some_block
  have pos := size_pos nonzero
  obtain ⟨b, number, lt⟩ := block_of_lt (Nat.lt_of_not_le many)
  have last : b.toNat / p.blockSize.toNat = 512 * p.blockSize.toNat - 1 := by
    rw [number, Nat.mul_div_cancel _ pos]
  obtain ⟨s', added⟩ := faithful.adds lt
  obtain ⟨x, -, after⟩ := added.bits b lt
  obtain ⟨t, run, -⟩ := after s'.block
  have value := getBlock_value small run (by omega)
  rw [if_pos rfl, Partition.held, if_neg (by omega)] at value
  simp at value

/-- The driver reaches the sectors of every block of the bitmap. -/
theorem fits (lt : b.toNat < p.blocks) : (p.blockToLBA (p.tBlock b + 4)).toNat /
    (info.headCount.toNat * info.sectorMax.toNat) < 256 := by
  have some_block := Nat.zero_lt_of_lt lt
  obtain ⟨nonzero, heads, sectors, small⟩ := faithful.answers some_block
  have pos := size_pos nonzero
  have offset := (Nat.div_lt_iff_lt_mul pos).mpr
    (Nat.lt_of_lt_of_le lt (faithful.bytes some_block))
  have few : b.toNat / (512 * p.blockSize.toNat) < 8 := by
    rw [Nat.mul_comm, ← Nat.div_div_eq_div_mul]
    omega
  by_contra far
  have before := FloppyInfo.startOf_before heads sectors (Nat.le_of_not_lt far)
  have cylinder := Nat.mul_pos heads sectors
  obtain ⟨late, -⟩ := faithful.marked some_block lt (by omega)
  rw [toNat_lba (Nat.lt_trans lt blocks_lt) pos] at before
  rw [Partition.place] at late
  have blocks := Nat.mul_le_mul_right p.blockSize.toNat (Nat.le_of_lt_succ few)
  rw [Nat.add_mul] at before
  omega

/-- The block of the bitmap for a block is block 4 or 5, and one of the partition's. -/
theorem inBitmap (lt : b.toNat < p.blocks) :
    b.toNat / (512 * p.blockSize.toNat) + 4 < min 6 p.blocks := by
  have some_block := Nat.zero_lt_of_lt lt
  obtain ⟨nonzero, heads, sectors, small⟩ := faithful.answers some_block
  have pos := size_pos nonzero
  have offset := (Nat.div_lt_iff_lt_mul pos).mpr
    (Nat.lt_of_lt_of_le lt (faithful.bytes some_block))
  obtain ⟨-, early⟩ := faithful.marked some_block lt (by omega)
  rw [Partition.place, FloppyInfo.startOf_eq heads sectors (faithful.fits lt),
    toNat_lba (Nat.lt_trans lt blocks_lt) pos] at early
  by_contra beyond
  have product := Nat.mul_le_mul_right p.blockSize.toNat (Nat.le_of_not_lt beyond)
  have start := Nat.lt_of_le_of_lt (Nat.le_add_right ..) early
  omega

theorem fits_of_pos (some_block : 0 < p.blocks) : Fits p info := by
  obtain ⟨nonzero, heads, sectors, small⟩ := faithful.answers some_block
  have pos := size_pos nonzero
  refine ⟨heads, sectors, small, ?_, faithful.bytes some_block, ?_, ?_⟩
  · obtain ⟨b, number, lt⟩ := block_of_lt some_block
    have first := faithful.inBitmap lt
    rw [number, Nat.zero_div] at first
    omega
  · by_contra many
    obtain ⟨b, number, lt⟩ := block_of_lt (Nat.lt_of_not_le many)
    have third := faithful.inBitmap lt
    have two : 1024 * p.blockSize.toNat = 2 * (512 * p.blockSize.toNat) := by ring
    rw [number, two, Nat.mul_div_cancel _ (by omega)] at third
    omega
  · obtain ⟨b, number, lt⟩ := block_of_lt (Nat.sub_lt some_block Nat.one_pos)
    have last := faithful.fits lt
    rw [toNat_lba (Nat.lt_trans lt blocks_lt) pos, number] at last
    exact last

end FaithfulSet

/--
The bitmap is a set of the partition's blocks if it has none, or if blocks have at most eight
sectors, the bitmap lies in blocks 4 and 5 of the partition and on the first 256 cylinders, and no
block's byte is the last one of a block of the bitmap.
-/
theorem bitmap_faithful_iff (p : Partition) (info : FloppyInfo) :
    FaithfulSet p info ↔ p.blocks = 0 ∨ Fits p info := by
  constructor
  · intro faithful
    rcases Nat.eq_zero_or_pos p.blocks with none | some_block
    · exact Or.inl none
    · exact Or.inr (faithful.fits_of_pos some_block)
  · rintro (none | fit)
    · intro st1 _ s _ _ b lt
      omega
    · exact fit.faithful

/-- Block 600 of a floppy with blocks of one sector is marked in the buffer, not on the disk. -/
theorem bitmap_loses_block :
    (∃ s', setBlock ⟨1, 2879, 1⟩ (fun _ => 0) 600 (emptyState ⟨2, 18⟩) = .ok s' ∧ ∃ t,
      getBlock ⟨1, 2879, 1⟩ (fun _ => 0) 600 { s' with block := fun _ => 0 } = .ok (t, false)) ∧
    ¬ FaithfulSet ⟨1, 2879, 1⟩ ⟨2, 18⟩ := by
  constructor
  · obtain ⟨s', run⟩ := @setBlock_done ⟨1, 2879, 1⟩ (fun _ => 0) (emptyState ⟨2, 18⟩) 600
      (by decide) (by decide) (fun _ => rfl) (by decide)
    obtain ⟨-, d, bytes, d', read, wrote, rfl, -⟩ := setBlock_parts run
    have info : s'.drive.info = ⟨2, 18⟩ :=
      (floppyWriteLBA_recorded (by decide) wrote).info.trans (floppyReadLBA_sameDisk read).1
    obtain ⟨t, x, again⟩ := @getBlock_done ⟨1, 2879, 1⟩ (fun _ => 0)
      { s' with block := fun _ => 0 } 600 (by rw [info]; decide) (by rw [info]; decide)
      (fun _ => rfl) (by decide)
    obtain ⟨-, d₂, bytes₂, read₂, value, -⟩ := getBlock_parts again
    have beyond := floppyReadLBA_fetched (by decide) read₂ 600
    rw [if_neg (by decide)] at beyond
    change bytes₂ 600 = 0 at beyond
    change x = (bytes₂ 600).getLsbD 0 at value
    have zero : x = false := by
      rw [value, beyond]
      rfl
    exact ⟨s', run, t, zero ▸ again⟩
  · intro faithful
    have bytes := faithful.bytes (by decide)
    revert bytes
    decide

end ChudOS.FBB
