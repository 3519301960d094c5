import ChudOS.Devices.Floppy
import ChudOS.Library.Outcome
import Mathlib.Tactic.Ring
import Mathlib.Tactic.GCongr

/-!
# What a floppy transfer moves

Both functions take one from the byte count, and the reading one took it before: a read leaves out
the last byte. Above 64 KiB every round moves the same bytes, those of the last chunk, between the
same sectors and the start of the buffer.
-/

namespace ChudOS

open Outcome

/-- How many bytes a write of a chunk of `x` bytes moves: `x`, or 64 KiB for none. -/
def moved (x : Nat) : Nat := if x = 0 then 0x10000 else x

/-- How many bytes each command of a write of `n` sectors moves. -/
def bytesWritten (n : Nat) : Nat :=
  if n * 512 ≤ 0x10000 then n * 512 else moved (n * 512 % 0x10000)

/-- The place on the medium at which the commands for an LBA begin. -/
def FloppyInfo.startOf (info : FloppyInfo) (lba : U64) : Nat :=
  let chs := floppyLBAToCHS info lba
  info.position (chs.cylinder.setWidth 8) (chs.head.setWidth 8) (chs.sector.setWidth 8)

/-- From `d` to `d'` the first `n` bytes of the buffer were written from `position` on. -/
structure Recorded (d : FloppyDrive) (position n : Nat) (src : Nat → U8) (d' : FloppyDrive) :
    Prop where
  info : d'.info = d.info
  medium : ∀ a, d'.medium a =
    if 512 * position ≤ a ∧ a < 512 * position + n then src (a - 512 * position) else d.medium a

variable {d d' d'' : FloppyDrive} {p n m k x : Nat} {src dst dst' : Nat → U8} {st1 : Nat → U8}
  {st : U8} {count : U32} {c h s : U8}

/-! ## The count register -/

theorem moved_le (le : x ≤ 0x10000) : moved x ≤ 0x10000 := by
  rw [moved]
  split_ifs <;> omega

theorem moved_of_pos (pos : 0 < x) : moved x = x := if_neg (by omega)

theorem toNat_transferFrom (le : x ≤ 0x10000) :
    (isaDMATransferFrom (BitVec.ofNat 32 x)).toNat + 1 = moved x := by
  rw [isaDMATransferFrom, BitVec.toNat_setWidth, BitVec.toNat_sub, BitVec.toNat_ofNat, moved]
  change (2 ^ 32 - 1 + x % 2 ^ 32) % 2 ^ 32 % 2 ^ 16 + 1 = _
  split_ifs <;> omega

theorem toNat_transferTo (le : x ≤ 0x10000) (ne : x ≠ 1) :
    (isaDMATransferTo (BitVec.ofNat 32 x - 1)).toNat + 1 = moved x - 1 := by
  rw [isaDMATransferTo, BitVec.toNat_setWidth, BitVec.toNat_sub, BitVec.toNat_sub,
    BitVec.toNat_ofNat, moved]
  change (2 ^ 32 - 1 + (2 ^ 32 - 1 + x % 2 ^ 32) % 2 ^ 32) % 2 ^ 32 % 2 ^ 16 + 1 = _
  split_ifs <;> omega

/-! ## Writing -/

theorem Recorded.trans (h : Recorded d p n src d') (g : Recorded d' p n src d'') :
    Recorded d p n src d'' := by
  refine ⟨g.info.trans h.info, fun a => ?_⟩
  rw [g.medium, h.medium]
  split_ifs <;> rfl

/-- The bounce buffer holds what is written. -/
theorem writeChunk_recorded (hx : x ≤ 0x10000) (hk : moved x ≤ k)
    (run : writeChunk { d with bounce := copyBytes src k d.bounce } p (BitVec.ofNat 32 x) st =
      .ok d') : Recorded d p (moved x) src d' := by
  obtain ⟨-, -, done⟩ := bind_eq_ok.mp run
  obtain rfl := Except.ok.inj done
  refine ⟨rfl, fun a => ?_⟩
  rw [FloppyDrive.writeData, toNat_transferFrom hx]
  dsimp only
  split_ifs with inside
  · exact if_pos (by omega)
  · rfl

theorem writeChunks_recorded (hx : x ≤ 0x10000)
    (run : writeChunks p (BitVec.ofNat 32 x) st1 src (k + 1) d = .ok d') :
    Recorded d p (moved x) src d' := by
  induction k generalizing d with
  | zero =>
    obtain ⟨d₁, round, rest⟩ := bind_eq_ok.mp run
    obtain rfl := Except.ok.inj rest
    exact writeChunk_recorded hx (moved_le hx) round
  | succ k ih =>
    obtain ⟨d₁, round, rest⟩ := bind_eq_ok.mp run
    exact (writeChunk_recorded hx (moved_le hx) round).trans (ih rest)

theorem floppyWriteCHS_recorded {n : U16} (pos : 0 < n.toNat)
    (run : floppyWriteCHS d c h s src n st1 = .ok d') :
    Recorded d (d.info.position c h s) (bytesWritten n.toNat) src d' := by
  rw [floppyWriteCHS] at run
  dsimp only at run
  rw [bytesWritten]
  by_cases long : 0x10000 < n.toNat * 512
  · rw [if_pos long] at run
    rw [if_neg (by omega)]
    obtain ⟨k, hk⟩ : ∃ k, n.toNat * 512 / 0x10000 = k + 1 :=
      ⟨n.toNat * 512 / 0x10000 - 1, by omega⟩
    obtain ⟨d₁, chunks, rest⟩ := bind_eq_ok.mp run
    rw [hk] at chunks
    have first := writeChunks_recorded (by omega) chunks
    have start : Recorded d (d.info.position c h s) _ src d₁ := ⟨first.info, first.medium⟩
    by_cases more : 1 < n.toNat * 512 % 0x10000
    · rw [if_pos more] at rest
      exact start.trans (writeChunk_recorded (by omega)
        (Nat.le_of_eq (moved_of_pos (x := n.toNat * 512 % 0x10000) (by omega))) rest)
    · rw [if_neg more] at rest
      obtain rfl := Except.ok.inj rest
      exact start
  · rw [if_neg long] at run
    rw [if_pos (by omega)]
    have done := writeChunk_recorded (d := { d with bounce := fun _ => 0 }) (by omega)
      (Nat.le_of_eq (moved_of_pos (x := n.toNat * 512) (by omega))) run
    rw [moved_of_pos (by omega)] at done
    exact ⟨done.info, done.medium⟩

/-! ## Reading -/

/-- After a read the bounce buffer, empty before, holds `n` bytes from `position` on. -/
structure Fetched (d : FloppyDrive) (position n : Nat) (d' : FloppyDrive) : Prop where
  info : d'.info = d.info
  medium : d'.medium = d.medium
  bounce : ∀ i, d'.bounce i = if i < n then d.medium (512 * position + i) else 0

theorem readChunk_fetched (hx : x ≤ 0x10000) (ne : x ≠ 1)
    (old : ∀ i, d.bounce i = if i < m then d.medium (512 * p + i) else 0) (hm : m ≤ moved x - 1)
    (run : readChunk d p (BitVec.ofNat 32 x - 1) st = .ok d') : Fetched d p (moved x - 1) d' := by
  obtain ⟨-, -, done⟩ := bind_eq_ok.mp run
  obtain rfl := Except.ok.inj done
  refine ⟨rfl, rfl, fun i => ?_⟩
  rw [FloppyDrive.readData, toNat_transferTo hx ne]
  by_cases inside : i < moved x - 1
  · exact (if_pos inside).trans (if_pos inside).symm
  · rw [if_neg inside]
    exact (if_neg inside).trans ((old i).trans (if_neg (by omega)))

theorem copyBytes_again {g : Nat → U8} (le : n ≤ m) :
    copyBytes g n (copyBytes g m dst) = copyBytes g m dst := by
  funext i
  by_cases lt : i < n
  · exact (if_pos lt).trans (if_pos (Nat.lt_of_lt_of_le lt le)).symm
  · exact if_neg lt

theorem readChunks_fetched (hx : x ≤ 0x10000) (ne : x ≠ 1)
    (old : ∀ i, d.bounce i = if i < m then d.medium (512 * p + i) else 0) (hm : m ≤ moved x - 1)
    (run : readChunks p (BitVec.ofNat 32 x - 1) st1 (k + 1) d dst = .ok (d', dst')) :
    Fetched d p (moved x - 1) d' ∧ dst' = copyBytes d'.bounce 0x10000 dst := by
  induction k generalizing d dst m with
  | zero =>
    obtain ⟨d₁, round, rest⟩ := bind_eq_ok.mp run
    obtain ⟨rfl, rfl⟩ := Prod.mk.inj (Except.ok.inj rest)
    exact ⟨readChunk_fetched hx ne old hm round, rfl⟩
  | succ k ih =>
    obtain ⟨d₁, round, rest⟩ := bind_eq_ok.mp run
    have first := readChunk_fetched hx ne old hm round
    obtain ⟨again, rfl⟩ := ih (fun i => (first.bounce i).trans (by rw [first.medium])) (Nat.le_refl _)
      rest
    have same : d'.bounce = d₁.bounce := funext fun i => by
      rw [again.bounce, first.bounce, first.medium]
    refine ⟨⟨again.info.trans first.info, again.medium.trans first.medium, fun i => ?_⟩, ?_⟩
    · rw [same, first.bounce]
    · rw [same, copyBytes_again (Nat.le_refl _)]

theorem floppyReadCHS_fetched {n : U16} (pos : 0 < n.toNat)
    (run : floppyReadCHS d c h s dst n st1 = .ok (d', dst')) : ∀ i, dst' i =
      if i < min (n.toNat * 512) 0x10000 then
        if i < bytesWritten n.toNat - 1 then d.medium (512 * d.info.position c h s + i) else 0
      else dst i := by
  rw [floppyReadCHS] at run
  dsimp only at run
  intro i
  have empty : ∀ i : Nat, (0 : U8) = if i < 0 then d.medium (512 * d.info.position c h s + i) else 0 :=
    fun i => (if_neg (Nat.not_lt_zero i)).symm
  by_cases long : 0x10000 < n.toNat * 512
  · rw [if_pos long] at run
    have size : bytesWritten n.toNat = moved (n.toNat * 512 % 0x10000) := if_neg (by omega)
    rw [size, Nat.min_eq_right (by omega)]
    obtain ⟨k, hk⟩ : ∃ k, n.toNat * 512 / 0x10000 = k + 1 :=
      ⟨n.toNat * 512 / 0x10000 - 1, by omega⟩
    obtain ⟨⟨d₁, dst₁⟩, chunks, rest⟩ := bind_eq_ok.mp run
    rw [hk] at chunks
    obtain ⟨first, rfl⟩ := readChunks_fetched (by omega) (by omega) empty (Nat.zero_le _) chunks
    have bounce := first.bounce
    dsimp only at rest bounce
    by_cases more : 1 < n.toNat * 512 % 0x10000
    · rw [if_pos more] at rest
      obtain ⟨d₂, round, done⟩ := bind_eq_ok.mp rest
      obtain ⟨rfl, rfl⟩ := Prod.mk.inj (Except.ok.inj done)
      have last := readChunk_fetched (by omega) (by omega)
        (fun i => (first.bounce i).trans (by rw [first.medium])) (Nat.le_refl _) round
      have same : d₂.bounce = d₁.bounce := funext fun i => by
        rw [last.bounce, first.bounce, first.medium]
      rw [same, copyBytes_again (by omega), copyBytes, bounce]
    · rw [if_neg more] at rest
      obtain ⟨rfl, rfl⟩ := Prod.mk.inj (Except.ok.inj rest)
      rw [copyBytes, bounce]
  · rw [if_neg long] at run
    have size : bytesWritten n.toNat = n.toNat * 512 := if_pos (by omega)
    rw [size, Nat.min_eq_left (by omega)]
    obtain ⟨d₁, round, done⟩ := bind_eq_ok.mp run
    obtain ⟨rfl, rfl⟩ := Prod.mk.inj (Except.ok.inj done)
    have first := readChunk_fetched (by omega) (by omega) empty (Nat.zero_le _) round
    have bounce := first.bounce
    rw [moved_of_pos (by omega)] at bounce
    rw [copyBytes, bounce]

/-! ## Without an error bit -/

variable {r : U32}

theorem writeChunk_done (good : checkStatus st = .ok ()) :
    writeChunk d p r st = .ok (d.writeData p (isaDMATransferFrom r)) := by
  rw [writeChunk, good]
  rfl

theorem readChunk_done (good : checkStatus st = .ok ()) :
    readChunk d p r st = .ok (d.readData p (isaDMATransferTo r)) := by
  rw [readChunk, good]
  rfl

theorem writeChunks_done (good : ∀ k, checkStatus (st1 k) = .ok ()) :
    ∃ d', writeChunks p r st1 src k d = .ok d' := by
  induction k generalizing d with
  | zero => exact ⟨d, rfl⟩
  | succ k ih =>
    obtain ⟨d', rest⟩ := ih
    exact ⟨d', bind_eq_ok.mpr ⟨_, writeChunk_done (good k), rest⟩⟩

theorem readChunks_done (good : ∀ k, checkStatus (st1 k) = .ok ()) :
    ∃ d' dst', readChunks p r st1 k d dst = .ok (d', dst') := by
  induction k generalizing d dst with
  | zero => exact ⟨d, dst, rfl⟩
  | succ k ih =>
    obtain ⟨d', dst', rest⟩ := ih
    exact ⟨d', dst', bind_eq_ok.mpr ⟨_, readChunk_done (good k), rest⟩⟩

theorem floppyWriteCHS_done {n : U16} (good : ∀ k, checkStatus (st1 k) = .ok ()) :
    ∃ d', floppyWriteCHS d c h s src n st1 = .ok d' := by
  rw [floppyWriteCHS]
  dsimp only
  split_ifs with long more
  · obtain ⟨d₁, chunks⟩ := writeChunks_done good
    exact ⟨_, bind_eq_ok.mpr ⟨d₁, chunks, writeChunk_done (good _)⟩⟩
  · obtain ⟨d₁, chunks⟩ := writeChunks_done good
    exact ⟨d₁, bind_eq_ok.mpr ⟨d₁, chunks, rfl⟩⟩
  · exact ⟨_, writeChunk_done (good 0)⟩

theorem floppyReadCHS_done {n : U16} (good : ∀ k, checkStatus (st1 k) = .ok ()) :
    ∃ d' dst', floppyReadCHS d c h s dst n st1 = .ok (d', dst') := by
  rw [floppyReadCHS]
  dsimp only
  split_ifs with long more
  · obtain ⟨d₁, dst₁, chunks⟩ := readChunks_done good
    exact ⟨_, _, bind_eq_ok.mpr ⟨_, chunks, bind_eq_ok.mpr ⟨_, readChunk_done (good _), rfl⟩⟩⟩
  · obtain ⟨d₁, dst₁, chunks⟩ := readChunks_done good
    exact ⟨d₁, dst₁, bind_eq_ok.mpr ⟨_, chunks, rfl⟩⟩
  · exact ⟨_, _, bind_eq_ok.mpr ⟨_, readChunk_done (good 0), rfl⟩⟩

theorem floppyCHS_done {info : FloppyInfo} {lba : U64} (heads : info.headCount ≠ 0)
    (sectors : info.sectorMax ≠ 0) : ∃ chs, floppyCHS info lba = .ok chs := by
  rw [floppyCHS, if_neg (not_or.mpr ⟨heads, sectors⟩)]
  exact ⟨_, rfl⟩

/-! ## A write, then a read -/

variable {lba : U64} {count : U16} {st st' : Nat → U8}

theorem floppyWriteLBA_recorded (pos : 0 < count.toNat)
    (run : floppyWriteLBA d lba src count st = .ok d') :
    Recorded d (d.info.startOf lba) (bytesWritten count.toNat) src d' := by
  obtain ⟨chs, address, rest⟩ := bind_eq_ok.mp run
  rw [floppyCHS] at address
  split_ifs at address
  obtain rfl := Except.ok.inj address
  exact floppyWriteCHS_recorded pos rest

theorem floppyReadLBA_fetched (pos : 0 < count.toNat)
    (run : floppyReadLBA d lba dst count st = .ok (d', dst')) : ∀ i, dst' i =
      if i < min (count.toNat * 512) 0x10000 then
        if i < bytesWritten count.toNat - 1 then d.medium (512 * d.info.startOf lba + i) else 0
      else dst i := by
  obtain ⟨chs, address, rest⟩ := bind_eq_ok.mp run
  rw [floppyCHS] at address
  split_ifs at address
  obtain rfl := Except.ok.inj address
  exact floppyReadCHS_fetched pos rest

theorem floppyWriteLBA_done (heads : d.info.headCount ≠ 0) (sectors : d.info.sectorMax ≠ 0)
    (good : ∀ k, checkStatus (st k) = .ok ()) : ∃ d', floppyWriteLBA d lba src count st = .ok d' := by
  obtain ⟨chs, address⟩ := @floppyCHS_done d.info lba heads sectors
  obtain ⟨d', run⟩ := floppyWriteCHS_done good
  exact ⟨d', bind_eq_ok.mpr ⟨chs, address, run⟩⟩

theorem floppyReadLBA_done (heads : d.info.headCount ≠ 0) (sectors : d.info.sectorMax ≠ 0)
    (good : ∀ k, checkStatus (st k) = .ok ()) :
    ∃ d' dst', floppyReadLBA d lba dst count st = .ok (d', dst') := by
  obtain ⟨chs, address⟩ := @floppyCHS_done d.info lba heads sectors
  obtain ⟨d', dst', run⟩ := floppyReadCHS_done good
  exact ⟨d', dst', bind_eq_ok.mpr ⟨chs, address, run⟩⟩

theorem bytesWritten_le (n : Nat) : bytesWritten n ≤ min (n * 512) 0x10000 := by
  rw [bytesWritten]
  split_ifs with short
  · exact Nat.le_min.mpr ⟨Nat.le_refl _, short⟩
  · exact Nat.le_trans (moved_le (by omega)) (Nat.le_min.mpr ⟨by omega, Nat.le_refl _⟩)

/-! ## What a read keeps -/

/-- A drive with the same geometry and the same sectors. -/
def FloppyDrive.SameDisk (d d' : FloppyDrive) : Prop := d'.info = d.info ∧ d'.medium = d.medium

theorem readChunk_sameDisk {r : U32} {b : U8} (run : readChunk d p r b = .ok d') :
    d.SameDisk d' := by
  obtain ⟨-, -, done⟩ := bind_eq_ok.mp run
  obtain rfl := Except.ok.inj done
  exact ⟨rfl, rfl⟩

theorem readChunks_sameDisk {r : U32} (run : readChunks p r st k d dst = .ok (d', dst')) :
    d.SameDisk d' := by
  induction k generalizing d dst with
  | zero =>
    obtain ⟨rfl, -⟩ := Prod.mk.inj (Except.ok.inj run)
    exact ⟨rfl, rfl⟩
  | succ k ih =>
    obtain ⟨d₁, round, rest⟩ := bind_eq_ok.mp run
    have first := readChunk_sameDisk round
    have others := ih rest
    exact ⟨others.1.trans first.1, others.2.trans first.2⟩

theorem floppyReadCHS_sameDisk (run : floppyReadCHS d c h s dst count st = .ok (d', dst')) :
    d.SameDisk d' := by
  rw [floppyReadCHS] at run
  dsimp only at run
  split_ifs at run with long more
  · obtain ⟨⟨d₁, dst₁⟩, chunks, rest⟩ := bind_eq_ok.mp run
    obtain ⟨d₂, round, done⟩ := bind_eq_ok.mp rest
    obtain ⟨rfl, -⟩ := Prod.mk.inj (Except.ok.inj done)
    have first := readChunks_sameDisk chunks
    have last := readChunk_sameDisk round
    exact ⟨last.1.trans first.1, last.2.trans first.2⟩
  · obtain ⟨⟨d₁, dst₁⟩, chunks, done⟩ := bind_eq_ok.mp run
    obtain ⟨rfl, -⟩ := Prod.mk.inj (Except.ok.inj done)
    have first := readChunks_sameDisk chunks
    exact ⟨first.1, first.2⟩
  · obtain ⟨d₁, round, done⟩ := bind_eq_ok.mp run
    obtain ⟨rfl, -⟩ := Prod.mk.inj (Except.ok.inj done)
    have only := readChunk_sameDisk round
    exact ⟨only.1, only.2⟩

theorem floppyReadLBA_sameDisk (run : floppyReadLBA d lba dst count st = .ok (d', dst')) :
    d.SameDisk d' := by
  obtain ⟨chs, -, rest⟩ := bind_eq_ok.mp run
  exact floppyReadCHS_sameDisk rest

/-! ## Where the commands begin -/

/-- Only the cylinder is cut, to 8 bits. -/
theorem FloppyInfo.startOf_cut {info : FloppyInfo} (heads : 0 < info.headCount.toNat)
    (sectors : 0 < info.sectorMax.toNat) :
    info.startOf lba = (lba.toNat / (info.headCount.toNat * info.sectorMax.toNat) % 256 *
        info.headCount.toNat + lba.toNat / info.sectorMax.toNat % info.headCount.toNat) *
      info.sectorMax.toNat + lba.toNat % info.sectorMax.toNat := by
  have heads' := info.headCount.isLt
  have sectors' := info.sectorMax.isLt
  have product : info.headCount.toNat * info.sectorMax.toNat < 2 ^ 64 := by
    have := Nat.mul_lt_mul'' heads' sectors'
    omega
  have head := Nat.mod_lt (lba.toNat / info.sectorMax.toNat) heads
  have sector := Nat.mod_lt lba.toNat sectors
  have cylinder : ((floppyLBAToCHS info lba).cylinder.setWidth 8).toNat =
      lba.toNat / (info.headCount.toNat * info.sectorMax.toNat) % 256 := by
    simp only [floppyLBAToCHS, BitVec.toNat_setWidth, BitVec.toNat_udiv, BitVec.toNat_mul]
    rw [Nat.mod_eq_of_lt (by omega : info.headCount.toNat < 2 ^ 64),
      Nat.mod_eq_of_lt (by omega : info.sectorMax.toNat < 2 ^ 64), Nat.mod_eq_of_lt product]
    exact Nat.mod_mod_of_dvd _ ⟨256, rfl⟩
  have side : ((floppyLBAToCHS info lba).head.setWidth 8).toNat =
      lba.toNat / info.sectorMax.toNat % info.headCount.toNat := by
    simp only [floppyLBAToCHS, BitVec.toNat_setWidth, BitVec.toNat_udiv, BitVec.toNat_umod]
    rw [Nat.mod_eq_of_lt (by omega : info.headCount.toNat < 2 ^ 64),
      Nat.mod_eq_of_lt (by omega : info.sectorMax.toNat < 2 ^ 64)]
    omega
  have place : ((floppyLBAToCHS info lba).sector.setWidth 8).toNat =
      lba.toNat % info.sectorMax.toNat + 1 := by
    simp only [floppyLBAToCHS, BitVec.toNat_setWidth, BitVec.toNat_umod, BitVec.toNat_add]
    rw [Nat.mod_eq_of_lt (by omega : info.sectorMax.toNat < 2 ^ 64)]
    change (lba.toNat % info.sectorMax.toNat + 1) % 2 ^ 64 % 2 ^ 16 % 2 ^ 8 = _
    omega
  simp only [startOf, position]
  rw [cylinder, side, place, Nat.add_sub_cancel]

/-- An LBA whose cylinder has 8 bits is the place at which its commands begin. -/
theorem FloppyInfo.startOf_eq {info : FloppyInfo} (heads : 0 < info.headCount.toNat)
    (sectors : 0 < info.sectorMax.toNat)
    (fits : lba.toNat / (info.headCount.toNat * info.sectorMax.toNat) < 256) :
    info.startOf lba = lba.toNat := by
  rw [startOf_cut heads sectors, Nat.mod_eq_of_lt fits]
  exact split_sector lba.toNat info.headCount.toNat info.sectorMax.toNat

/-- Any other LBA is taken for one at least 256 cylinders before it. -/
theorem FloppyInfo.startOf_before {info : FloppyInfo} (heads : 0 < info.headCount.toNat)
    (sectors : 0 < info.sectorMax.toNat)
    (far : 256 ≤ lba.toNat / (info.headCount.toNat * info.sectorMax.toNat)) :
    info.startOf lba + 256 * (info.headCount.toNat * info.sectorMax.toNat) ≤ lba.toNat := by
  have parts := split_sector lba.toNat info.headCount.toNat info.sectorMax.toNat
  rw [startOf_cut heads sectors]
  generalize lba.toNat / (info.headCount.toNat * info.sectorMax.toNat) = cylinder at *
  generalize lba.toNat / info.sectorMax.toNat % info.headCount.toNat = head at *
  generalize lba.toNat % info.sectorMax.toNat = sector at *
  have cut : cylinder % 256 + 256 ≤ cylinder := by omega
  calc (cylinder % 256 * info.headCount.toNat + head) * info.sectorMax.toNat + sector +
        256 * (info.headCount.toNat * info.sectorMax.toNat)
      = ((cylinder % 256 + 256) * info.headCount.toNat + head) * info.sectorMax.toNat + sector := by
        ring
    _ ≤ (cylinder * info.headCount.toNat + head) * info.sectorMax.toNat + sector := by gcongr
    _ = lba.toNat := parts

/--
A written range is read back, and nothing outside it has changed, exactly when the bytes that the
read leaves out are zero, those that neither call moves were in the buffer already, and those that
the write puts outside the range were there already.
-/
theorem floppy_read_back_iff (pos : 0 < count.toNat)
    (wrote : floppyWriteLBA d lba src count st = .ok d')
    (read : floppyReadLBA d' lba dst count st' = .ok (d'', dst')) :
    ((∀ i < 512 * count.toNat, dst' i = src i) ∧
      ∀ a, a < 512 * lba.toNat ∨ 512 * (lba.toNat + count.toNat) ≤ a → d'.medium a = d.medium a) ↔
    (∀ i, bytesWritten count.toNat ≤ i + 1 → i < min (512 * count.toNat) 0x10000 → src i = 0) ∧
      (∀ i, 0x10000 ≤ i → i < 512 * count.toNat → dst i = src i) ∧
      ∀ i < bytesWritten count.toNat,
        512 * d.info.startOf lba + i < 512 * lba.toNat ∨
          512 * (lba.toNat + count.toNat) ≤ 512 * d.info.startOf lba + i →
        src i = d.medium (512 * d.info.startOf lba + i) := by
  have size := bytesWritten_le count.toNat
  have record := floppyWriteLBA_recorded pos wrote
  have fetch := floppyReadLBA_fetched pos read
  rw [record.info, Nat.mul_comm] at fetch
  rw [Nat.mul_comm] at size
  constructor
  · rintro ⟨same, frame⟩
    refine ⟨fun i late lt => ?_, fun i beyond lt => ?_, fun i lt outside => ?_⟩
    · have at_i := fetch i
      rw [if_pos lt, if_neg (by omega)] at at_i
      exact (same i (by omega)).symm.trans at_i
    · have at_i := fetch i
      rw [if_neg (by omega)] at at_i
      exact at_i.symm.trans (same i lt)
    · have kept := frame _ outside
      rw [record.medium, if_pos ⟨by omega, by omega⟩, Nat.add_sub_cancel_left] at kept
      exact kept
  · rintro ⟨last, beyond, outside⟩
    refine ⟨fun i lt => ?_, fun a far => ?_⟩
    · rw [fetch]
      split_ifs with moved early
      · rw [record.medium, if_pos ⟨by omega, by omega⟩, Nat.add_sub_cancel_left]
      · exact (last i (by omega) moved).symm
      · exact beyond i (by omega) lt
    · rw [record.medium]
      split_ifs with inside
      · have here : a = 512 * d.info.startOf lba + (a - 512 * d.info.startOf lba) := by omega
        rw [outside (a - 512 * d.info.startOf lba) (by omega) (by omega), ← here]
      · rfl

/-- An empty disk of two sides with 18 sectors a track. -/
def emptyDrive : FloppyDrive where
  info := ⟨2, 18⟩
  medium := fun _ => 0
  bounce := fun _ => 0

theorem floppy_read_back_zeros : ∃ d' d'' dst',
    floppyWriteLBA emptyDrive 1 (fun _ => 0) 1 (fun _ => 0) = .ok d' ∧
      floppyReadLBA d' 1 (fun _ => 7) 1 (fun _ => 0) = .ok (d'', dst') ∧ ∀ i < 512, dst' i = 0 := by
  obtain ⟨d', wrote⟩ := @floppyWriteLBA_done emptyDrive (fun _ => 0) 1 1 (fun _ => 0)
    (by decide) (by decide) (fun _ => rfl)
  have same := (floppyWriteLBA_recorded (by decide) wrote).info
  obtain ⟨d'', dst', read⟩ := @floppyReadLBA_done d' (fun _ => 7) 1 1 (fun _ => 0)
    (by rw [same]; decide) (by rw [same]; decide) (fun _ => rfl)
  have exact_when := floppy_read_back_iff (by decide) wrote read
  refine ⟨d', d'', dst', wrote, read, (exact_when.mpr ⟨fun _ _ _ => rfl, fun i long lt => ?_,
    fun _ _ _ => rfl⟩).1⟩
  have short : i < 512 := lt
  omega

/-- One sector of ones comes back with a zero at its end. -/
theorem floppy_last_byte_lost : ∃ d' d'' dst',
    floppyWriteLBA emptyDrive 1 (fun _ => 1) 1 (fun _ => 0) = .ok d' ∧
      floppyReadLBA d' 1 (fun _ => 7) 1 (fun _ => 0) = .ok (d'', dst') ∧ dst' 511 ≠ 1 := by
  obtain ⟨d', wrote⟩ := @floppyWriteLBA_done emptyDrive (fun _ => 1) 1 1 (fun _ => 0)
    (by decide) (by decide) (fun _ => rfl)
  have same := (floppyWriteLBA_recorded (by decide) wrote).info
  obtain ⟨d'', dst', read⟩ := @floppyReadLBA_done d' (fun _ => 7) 1 1 (fun _ => 0)
    (by rw [same]; decide) (by rw [same]; decide) (fun _ => rfl)
  refine ⟨d', d'', dst', wrote, read, ?_⟩
  rw [floppyReadLBA_fetched (by decide) read, if_pos (by decide), if_neg (by decide)]
  decide

end ChudOS
