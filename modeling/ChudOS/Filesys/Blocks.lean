import ChudOS.Filesys.Volume
import Mathlib.Data.List.Range

/-!
# Blocks of a formatted volume

The formatter sets the block size to one sector. Then a block is a sector of its own, the bitmap of
the blocks below 512 lies in block 4, and an entry is read from a block as it was written. The bit of
block `b` lies in byte `b` of block 4, of which the driver loses the last one.

## Main definitions

* `SameBytes` — the bytes of a sector that every read delivers.
* `mark` — a block's bit set in the bitmap.
* `node` — the entry in a block, from the copy in memory for the main entry's block.
* `Filled` — the marked blocks are the first `n`.
-/

namespace ChudOS.GemFS

namespace Volume

def Plain (s : Volume) : Prop := s.main.blockSize = 1

/-- The entry that a walk along the chain sees in a block. -/
def node (s : Volume) (b : U64) : Entry := if b = 1 then s.main.entry else s.entryIn b

def next (s : Volume) (b : U64) : U64 := (s.node b).nextIndexStart

/-- The copy of the main entry in memory is the one on the disk. -/
def Cached (s : Volume) : Prop := mainOf (s.block 1) = s.main

end Volume

/-- The same bytes in two sectors, as far as every read delivers them. -/
def SameBytes [SectorAccess] (x y : Sector) : Prop := ∀ i < capacity, x i = y i

namespace Volume

/-- What is read of a block of the bitmap, which is written back with one bit set. A bit in no byte
of the block is lost. -/
def mark [SectorAccess] (s : Volume) (b : U64) : Volume :=
  s.putBlock (b / 512 + 4)
    (setBit (fun i => if i < capacity then s.block (b / 512 + 4) i else 0) b.toNat (b.toNat % 8))

/-- The blocks with a bit of their own that are marked are those below `n`. -/
def Filled [SectorAccess] (s : Volume) (n : Nat) : Prop :=
  ∀ b : U64, b.toNat < capacity → (fbbGetBlock s b = true ↔ b.toNat < n)

end Volume

open Volume

variable {env : Env} {s : Volume} {b c index : U64} {e : Entry} {n : Nat} {x y z : Sector}

/-! ## Reading a block after a write -/

theorem blockSize_of_plain (h : s.Plain) : blockSize s = 1 := by
  rw [blockSize, h]
  rfl

theorem blockToLBA_of_plain (h : s.Plain) (b : U64) :
    blockToLBA s b = b + s.lbaStart.setWidth 64 := by
  simp [blockToLBA, blockSize_of_plain h]

theorem block_putBlock (h : s.Plain) (b c : U64) (x : Sector) :
    (s.putBlock b x).block c = if c = b then x else s.block c := by
  have inj : blockToLBA s c = blockToLBA s b ↔ c = b := by
    simp [blockToLBA_of_plain h]
  change Function.update s.sectors (blockToLBA s b) x (blockToLBA s c) = _
  simp only [Function.update_apply, inj, block]

@[simp] theorem main_putBlock (s : Volume) (b : U64) (x : Sector) :
    (s.putBlock b x).main = s.main := rfl

@[simp] theorem written_putBlock (s : Volume) (b : U64) (x : Sector) :
    (s.putBlock b x).written = s.written := rfl

/-! ## Entries -/

theorem readMainEntry_of_cached (cached : s.Cached) : readMainEntry s = (s, s.main) := by
  rw [readMainEntry, cached]

section PutEntry

theorem block_putMain (h : s.Plain) (e : Entry) :
    (putMain env s { s.main with entry := e }).block 1 =
      mainSector env s { s.main with entry := e } :=
  (block_putBlock h 1 1 (mainSector env s { s.main with entry := e })).trans (if_pos rfl)

@[simp] theorem lbaStart_putEntry : (putEntry env s index b e).lbaStart = s.lbaStart := by
  rw [putEntry]; dsimp only; split_ifs <;> rfl

@[simp] theorem sectorCount_putEntry : (putEntry env s index b e).sectorCount = s.sectorCount := by
  rw [putEntry]; dsimp only; split_ifs <;> rfl

@[simp] theorem written_putEntry :
    (putEntry env s index b e).written = Function.update s.written index e := by
  rw [putEntry]; dsimp only; split_ifs <;> rfl

theorem main_putEntry :
    (putEntry env s index b e).main = if index = 0 then { s.main with entry := e } else s.main := by
  rw [putEntry]; dsimp only; split_ifs <;> rfl

theorem plain_putEntry : (putEntry env s index b e).Plain ↔ s.Plain := by
  rw [Plain, main_putEntry]
  split_ifs <;> rfl

theorem block_putEntry (h : s.Plain) (root : index = 0 ↔ b = 1) (hc : c ≠ b) :
    (putEntry env s index b e).block c = s.block c := by
  rw [putEntry]
  dsimp only
  split_ifs with zero
  · obtain rfl := root.mp zero
    exact (block_putBlock h 1 c _).trans (if_neg hc)
  · exact (block_putBlock h b c _).trans (if_neg hc)

variable (env e) in
/-- A walk sees the entry in the block it was written to, and the others as they were. -/
theorem node_putEntry (h : s.Plain) (root : index = 0 ↔ b = 1) (c : U64) :
    (putEntry env s index b e).node c = if c = b then e else s.node c := by
  rw [node, main_putEntry]
  by_cases eq : c = b
  · subst eq
    by_cases one : c = 1
    · simp [one, root.mpr one]
    · have nonzero : index ≠ 0 := fun zero => one (root.mp zero)
      rw [if_neg one, if_pos rfl, entryIn, putEntry]
      simp only [if_neg nonzero]
      exact (congrArg (entryOf · 0) ((block_putBlock h c c _).trans (if_pos rfl))).trans
        (entryOf_entryByte e)
  · rw [if_neg eq, entryIn, block_putEntry h root eq, node]
    by_cases one : c = 1
    · have nonzero : index ≠ 0 := fun zero => eq (one.trans (root.mp zero).symm)
      rw [if_pos one, if_pos one, if_neg nonzero]
    · rw [if_neg one, if_neg one, entryIn]

theorem cached_putEntry (h : s.Plain) (root : index = 0 ↔ b = 1) (cached : s.Cached) :
    (putEntry env s index b e).Cached := by
  by_cases zero : index = 0
  · rw [Cached, main_putEntry, if_pos zero, putEntry]
    simp only [if_pos zero]
    have stored := @block_putMain env { s with written := Function.update s.written index e } h e
    exact (congrArg mainOf stored).trans (mainOf_eq fun i hi => if_pos hi)
  · have other : b ≠ 1 := fun one => zero (root.mpr one)
    rw [Cached, main_putEntry, if_neg zero, block_putEntry h root other.symm, cached]

end PutEntry

/-! ## The bitmap -/

theorem bitmapLBA_of_plain (h : s.Plain) (b : U64) : bitmapLBA s b = blockToLBA s (b / 512 + 4) := by
  rw [bitmapLBA, blockSize_of_plain h]
  rfl

theorem setBit_apply (x : Nat → U8) (k bit i : Nat) :
    setBit x k bit i = if i = k then x k ||| (1 : U8) <<< bit else x i := by
  rw [setBit, Function.update_apply]

theorem getLsbD_or_one_shiftLeft (x : U8) {k : Nat} (hk : k < 8) :
    (x ||| (1 : U8) <<< k).getLsbD k = true := by
  rw [BitVec.getLsbD_or, BitVec.getLsbD_shiftLeft]
  simp [hk]

variable [SectorAccess]

theorem le_capacity : 511 ≤ capacity := by
  rw [capacity]
  split_ifs <;> decide

theorem le_capacity_of_le (h : n ≤ 511) : n ≤ capacity := h.trans le_capacity

theorem capacity_le : capacity ≤ 512 := by
  rw [capacity]
  split_ifs <;> decide

namespace SameBytes

theorem refl (x : Sector) : SameBytes x x := fun _ _ => rfl

theorem trans (h : SameBytes x y) (h' : SameBytes y z) : SameBytes x z := fun i hi =>
  (h i hi).trans (h' i hi)

theorem entry (h : SameBytes x y) : entryOf x 0 = entryOf y 0 :=
  entryOf_congr fun i hi => h i (by have := le_capacity; omega)

theorem main (h : SameBytes x y) : mainOf x = mainOf y :=
  mainOf_congr fun i hi => h i (by have := le_capacity; omega)

end SameBytes

/-- A read of one sector. -/
theorem getSectors_one (s : Volume) (lba : U64) (buffer : Nat → U8) (i : Nat) :
    getSectors s lba buffer 1 i =
      if i < capacity then s.sectors lba i else if i < 512 then 0 else buffer i := by
  have one : (1 : U16).toNat = 1 := rfl
  have sector (hi : i < 512) : lba + BitVec.ofNat 64 (i / 512) = lba := by
    rw [Nat.div_eq_of_lt hi]
    exact BitVec.add_zero lba
  by_cases hi : i < 512
  · rw [getSectors, sectorsMoved, one, sector hi, Nat.mod_eq_of_lt hi, capacity]
    cases SectorAccess.lossless <;> simp <;> split_ifs <;> first | rfl | omega
  · rw [getSectors, one, if_neg (fun h => hi h.1), if_neg (fun h => ?_), if_neg hi]
    have := capacity_le
    omega

/-- Up to 64 KiB the driver writes all of the sectors. -/
theorem sectorsMoved_eq {count : U16} (pos : 0 < count.toNat)
    (fits : SectorAccess.lossless = true ∨ count.toNat ≤ 128) : sectorsMoved count = count.toNat := by
  rw [sectorsMoved]
  split_ifs with lossless full
  · rfl
  · have := fits.resolve_left lossless
    omega
  · have := fits.resolve_left lossless
    omega

theorem sectorsMoved_one : sectorsMoved 1 = 1 := sectorsMoved_eq (by decide) (.inr (by decide))

/-- A write of one sector. -/
theorem putSectors_one (s : Volume) (b : U64) (buffer : Nat → U8) :
    putSectors s (blockToLBA s b) buffer 1 = s.putBlock b buffer := by
  have here (l : U64) : (l - blockToLBA s b).toNat < 1 ↔ l = blockToLBA s b := by
    bv_omega
  rw [putSectors, putBlock, sectorsMoved_one]
  congr 1
  funext l
  rw [Function.update_apply]
  by_cases eq : l = blockToLBA s b
  · rw [if_pos ((here l).mpr eq), if_pos eq, eq, BitVec.sub_self]
    funext i
    exact (if_neg (by decide)).trans (congrArg buffer (Nat.zero_add i))
  · rw [if_neg (fun lt => eq ((here l).mp lt)), if_neg eq]

section Plain

variable (h : s.Plain)
include h

theorem readBitmap_of_plain (b : U64) (i : Nat) :
    readBitmap s b i = if i < capacity then s.block (b / 512 + 4) i else 0 := by
  rw [readBitmap, h, getSectors_one, bitmapLBA_of_plain h]
  split_ifs <;> rfl

theorem fbbGetBlock_of_plain (b : U64) : fbbGetBlock s b =
    if b.toNat < capacity then (s.block 4 b.toNat).getLsbD (b.toNat % 8) else false := by
  have le := capacity_le
  have whole : b / 1 = b := BitVec.udiv_one
  rw [fbbGetBlock, blockSize_of_plain h]
  simp only [whole, readBitmap_of_plain h]
  by_cases low : b.toNat < capacity
  · have first : b / 512 = 0 := by
      apply BitVec.eq_of_toNat_eq
      rw [BitVec.toNat_udiv]
      exact Nat.div_eq_of_lt (low.trans_le le)
    have inside : b.toNat < 512 * (1 : U64).toNat := low.trans_le le
    rw [if_pos low, if_pos low, first, decide_eq_true inside]
    rfl
  · rw [if_neg low, if_neg low]
    simp

theorem fbbSetBlock_of_plain (b : U64) : fbbSetBlock s b = .ok (s.mark b) := by
  have read : readBitmap s b = fun i => if i < capacity then s.block (b / 512 + 4) i else 0 :=
    funext (readBitmap_of_plain h b)
  have whole : b / 1 = b := BitVec.udiv_one
  rw [fbbSetBlock, if_neg (by simp [blockSize_of_plain h]), read, blockSize_of_plain h, whole, h,
    bitmapLBA_of_plain h, putSectors_one, mark]

end Plain

@[simp] theorem main_mark (s : Volume) (b : U64) : (s.mark b).main = s.main := rfl

@[simp] theorem written_mark (s : Volume) (b : U64) : (s.mark b).written = s.written := rfl

@[simp] theorem lbaStart_mark (s : Volume) (b : U64) : (s.mark b).lbaStart = s.lbaStart := rfl

@[simp] theorem sectorCount_mark (s : Volume) (b : U64) :
    (s.mark b).sectorCount = s.sectorCount := rfl

theorem plain_mark : (s.mark b).Plain ↔ s.Plain := Iff.rfl

/-- The bits of the first blocks are in block 4. -/
theorem mark_of_lt (s : Volume) (hb : b.toNat < 512) : s.mark b =
    s.putBlock 4 (setBit (fun i => if i < capacity then s.block 4 i else 0) b.toNat (b.toNat % 8)) := by
  have first : b / 512 = 0 := by
    apply BitVec.eq_of_toNat_eq
    rw [BitVec.toNat_udiv]
    exact Nat.div_eq_of_lt hb
  rw [mark, first]
  rfl

theorem block_mark_of_lt (h : s.Plain) (hb : b.toNat < 512) (hc : c ≠ 4) :
    (s.mark b).block c = s.block c := by
  rw [mark_of_lt s hb, block_putBlock h, if_neg hc]

/-- The bytes of the other blocks stay. -/
theorem block_mark (h : s.Plain) (hc : c ≠ 4) : SameBytes ((s.mark b).block c) (s.block c) := by
  intro i hi
  by_cases low : b.toNat < 512
  · rw [block_mark_of_lt h low hc]
  · rw [mark, block_putBlock h]
    split_ifs with eq
    · -- the place of its bit is behind the bytes of a block
      have large : i ≠ b.toNat := by
        have := capacity_le
        omega
      rw [setBit_apply, if_neg large, if_pos hi, eq]
    · rfl

/-- Marking a block sets its bit and no other. -/
theorem fbbGetBlock_mark (h : s.Plain) (b c : U64) :
    fbbGetBlock (s.mark b) c = (fbbGetBlock s c || (c == b && decide (b.toNat < capacity))) := by
  have le := capacity_le
  rw [fbbGetBlock_of_plain (plain_mark.mpr h), fbbGetBlock_of_plain h]
  by_cases hc : c.toNat < capacity
  · rw [if_pos hc, if_pos hc]
    by_cases hb : b.toNat < 512
    · rw [mark_of_lt s hb, block_putBlock h, if_pos rfl, setBit_apply, if_pos hc]
      by_cases eq : c = b
      · subst eq
        rw [if_pos rfl, if_pos hc, getLsbD_or_one_shiftLeft _ (Nat.mod_lt _ (by decide))]
        simp [hc]
      · have ne : c.toNat ≠ b.toNat := fun h => eq (BitVec.eq_of_toNat_eq h)
        simp [eq, ne]
    · have other : decide (b.toNat < capacity) = false := decide_eq_false (by omega)
      rw [other, Bool.and_false, Bool.or_false, mark, block_putBlock h]
      split_ifs with eq
      · have place : c.toNat ≠ b.toNat := by omega
        rw [setBit_apply, if_neg place, if_pos hc, ← eq]
      · rfl
  · have ne : b.toNat < capacity → c ≠ b := fun hb eq => hc (eq ▸ hb)
    simp only [if_neg hc, Bool.false_or]
    by_cases hb : b.toNat < capacity <;> simp [hb, ne]

theorem fbbGetBlock_of_filled (plain : s.Plain) (filled : s.Filled n) (b : U64) :
    fbbGetBlock s b = decide (b.toNat < capacity ∧ b.toNat < n) := by
  by_cases low : b.toNat < capacity
  · rw [Bool.eq_iff_iff, filled b low]
    simp [low]
  · rw [fbbGetBlock_of_plain plain]
    simp [low]

/-! ## The search for a block -/

/-- What the search returns when every block with a bit of its own is marked: a number past the
partition, or the block whose bit is not read. -/
def pastEnd (s : Volume) : U64 :=
  if SectorAccess.lossless then s.sectorCount.setWidth 64 + 1 else 511

theorem findFreeBlock_cases (h : s.Plain) : ∃ b, findFreeBlock s = .ok b ∧
    (b.toNat < capacity ∧ fbbGetBlock s b = false ∧
        (∀ c : U64, c.toNat < b.toNat → fbbGetBlock s c = true) ∨
      (∀ c : U64, c.toNat < capacity → fbbGetBlock s c = true) ∧ b = pastEnd s) := by
  have le := capacity_le
  have number (c : U64) : BitVec.ofNat 64 c.toNat = c := by simp
  rw [findFreeBlock, blockSize_of_plain h, if_neg (by decide)]
  cases found : (List.range 0x200).find? fun i => !fbbGetBlock s (BitVec.ofNat 64 i) with
  | some k =>
    obtain ⟨free, hk, below⟩ := List.find?_range_eq_some.mp found
    have small : (BitVec.ofNat 64 k).toNat = k := by
      have := List.mem_range.mp hk
      rw [BitVec.toNat_ofNat]
      omega
    have before (c : U64) (hc : c.toNat < k) : fbbGetBlock s c = true := by
      have bit := below c.toNat hc
      rw [number] at bit
      simpa using bit
    refine ⟨_, rfl, ?_⟩
    by_cases low : k < capacity
    · exact .inl ⟨by rwa [small], by simpa using free, by rwa [small]⟩
    · -- the driver does not see the bit of block 511
      have last : k = 511 ∧ SectorAccess.lossless = false := by
        have := List.mem_range.mp hk
        rw [capacity] at low
        split_ifs at low <;> grind
      refine .inr ⟨fun c hc => before c (by omega), ?_⟩
      rw [pastEnd, last.1, last.2]
      rfl
  | none =>
    have all := List.find?_range_eq_none.mp found
    refine ⟨_, rfl, .inr ⟨fun c hc => ?_, ?_⟩⟩
    · have bit := all c.toNat (by omega)
      rw [number] at bit
      simpa using bit
    · have kept : (511#64).toNat < capacity := by
        by_contra lost
        have bit := all 511 (by decide)
        rw [fbbGetBlock_of_plain h, if_neg lost] at bit
        cases bit
      have lossless : SectorAccess.lossless = true := by
        rw [capacity] at kept
        split_ifs at kept with lossless
        · exact lossless
        · exact absurd kept (by decide)
      rw [pastEnd, if_pos lossless]
      simp

theorem findFreeBlock_of_filled (h : s.Plain) (filled : s.Filled n) (hn : n ≤ capacity) :
    findFreeBlock s = .ok (if n < capacity then BitVec.ofNat 64 n else pastEnd s) := by
  have le := capacity_le
  obtain ⟨b, result, ⟨low, free, below⟩ | ⟨all, last⟩⟩ := findFreeBlock_cases h
  · have ge : n ≤ b.toNat := by
      by_contra lt
      rw [(filled b low).mpr (by omega)] at free
      cases free
    have small : (BitVec.ofNat 64 n).toNat = n := by simp; omega
    have eq : b = BitVec.ofNat 64 n := by
      apply BitVec.eq_of_toNat_eq
      by_contra ne
      have marked := below (BitVec.ofNat 64 n) (by omega)
      rw [filled _ (by omega), small] at marked
      omega
    rw [result, if_pos (by omega), eq]
  · have full : ¬n < capacity := fun lt => by
      have small : (BitVec.ofNat 64 n).toNat = n := by simp; omega
      have marked := (filled (BitVec.ofNat 64 n) (by omega)).mp (all _ (by omega))
      omega
    rw [result, if_neg full, last]

/-! ## Entries and the bitmap -/

theorem node_mark (h : s.Plain) (hc : c ≠ 4) : (s.mark b).node c = s.node c := by
  rw [node, node, main_mark, entryIn, entryIn, (block_mark h hc).entry]

theorem cached_mark (h : s.Plain) (cached : s.Cached) : (s.mark b).Cached := by
  rw [Cached, (block_mark h (by decide)).main, main_mark, cached]

theorem fbbGetBlock_putEntry (h : s.Plain) (root : index = 0 ↔ b = 1) (hb : b ≠ 4) (c : U64) :
    fbbGetBlock (putEntry env s index b e) c = fbbGetBlock s c := by
  rw [fbbGetBlock_of_plain (plain_putEntry.mpr h), fbbGetBlock_of_plain h,
    block_putEntry h root hb.symm]

/-! ## Marking the next blocks -/

theorem Volume.Filled.mark (filled : s.Filled n) (h : s.Plain) (hn : n < capacity) :
    (s.mark (BitVec.ofNat 64 n)).Filled (n + 1) := by
  intro b hb
  have le := capacity_le
  have small : (BitVec.ofNat 64 n).toNat = n := by simp; omega
  have eq : b = BitVec.ofNat 64 n ↔ b.toNat = n := by rw [BitVec.toNat_eq, small]
  rw [fbbGetBlock_mark h]
  simp only [Bool.or_eq_true, filled b hb, Bool.and_eq_true, beq_iff_eq, decide_eq_true_eq, small,
    eq]
  omega

theorem Volume.Filled.putEntry (filled : s.Filled n) (h : s.Plain) (root : index = 0 ↔ b = 1)
    (hb : b ≠ 4) : (putEntry env s index b e).Filled n := fun c hc => by
  rw [fbbGetBlock_putEntry h root hb, filled c hc]

end ChudOS.GemFS
