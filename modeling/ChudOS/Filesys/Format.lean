import ChudOS.Filesys.Directories
import ChudOS.Filesys.Strict

/-!
# The formatted partition

What `GemFS_FormatPartition` leaves on a zeroed partition: a directory tree of ten entries, of which
three files start at fixed sectors.

## Main definitions

* `Zeroed` — the state of the partition before it is formatted.
* `Formatted` — its state afterwards.
* `Stage` — what holds of the disk from the third entry on.
-/

namespace ChudOS.GemFS

open Volume LinkedChain Outcome

variable [SectorAccess]

/-- The sectors of the partition, among them the reserved blocks, hold zeros. -/
structure Zeroed (s : Volume) : Prop where
  reserved : 6 ≤ s.sectorCount.toNat
  zero : ∀ b : U64, b.toNat < s.sectorCount.toNat →
    ∀ i < 512, s.sectors (b + s.lbaStart.setWidth 64) i = 0

variable {env : Env} {s s' t : Volume} {b f : U64} {k n n' u p : Nat} {e : Entry} {l l' : List U64}
  {args : CreateArgs}

/-! ## The reserved blocks -/

/-- The formatter marks the first blocks. -/
theorem mark_first (plain : s.Plain) (hk : k ≤ capacity) :
    ∃ t, (List.range k).foldlM (fun s i => fbbSetBlock s (BitVec.ofNat 64 i)) s = .ok t ∧
      t.Plain ∧ (∀ b, fbbGetBlock t b = (fbbGetBlock s b || decide (b.toNat < k))) ∧
        t.main = s.main ∧ t.lbaStart = s.lbaStart ∧ t.sectorCount = s.sectorCount ∧
          ∀ c, c ≠ 4 → t.block c = s.block c := by
  induction k with
  | zero => exact ⟨s, rfl, plain, fun b => by simp, rfl, rfl, rfl, fun _ _ => rfl⟩
  | succ k ih =>
    obtain ⟨t, eq, plain', marks, main, lba, count, block⟩ := ih (by omega)
    have few := capacity_le
    have small : (BitVec.ofNat 64 k).toNat = k := by simp; omega
    rw [List.range_succ, List.foldlM_append, eq, ok_bind, List.foldlM_cons,
      fbbSetBlock_of_plain plain', ok_bind]
    refine ⟨_, rfl, plain_mark.mpr plain', fun b => ?_, by rw [main_mark, main],
      by rw [lbaStart_mark, lba], by rw [sectorCount_mark, count],
      fun c hc => by rw [block_mark_of_lt plain' (by omega) hc, block c hc]⟩
    have new : b = BitVec.ofNat 64 k ↔ b.toNat = k := by rw [BitVec.toNat_eq, small]
    rw [fbbGetBlock_mark plain', marks, small, Bool.or_assoc, Bool.eq_iff_iff]
    simp only [Bool.or_eq_true, Bool.and_eq_true, beq_iff_eq, decide_eq_true_eq, new]
    refine or_congr_right ?_
    omega

/-- Where no other block is marked, the first blocks are the marked ones. -/
theorem reserve_blocks (plain : s.Plain) (hk : k ≤ capacity)
    (empty : ∀ b : U64, b.toNat < capacity → fbbGetBlock s b = true → b.toNat < k) :
    ∃ t, (List.range k).foldlM (fun s i => fbbSetBlock s (BitVec.ofNat 64 i)) s = .ok t ∧
      t.Plain ∧ t.Filled k ∧ t.main = s.main ∧ t.lbaStart = s.lbaStart ∧
        t.sectorCount = s.sectorCount ∧ ∀ c, c ≠ 4 → t.block c = s.block c := by
  obtain ⟨t, eq, plain', marks, rest⟩ := mark_first plain hk
  refine ⟨t, eq, plain', fun b hb => ?_, rest⟩
  rw [marks, Bool.or_eq_true, decide_eq_true_eq]
  exact ⟨fun h => h.elim (empty b hb) id, .inr⟩

def Formatted (env : Env) (s : Volume) : Prop :=
  ∃ s₀ bootMsg, Zeroed s₀ ∧ formatPartition env bootMsg s₀ = .ok s

/-- The partition with its main entry and its reserved blocks, before the first directory. -/
structure Bare (s : Volume) : Prop extends Directory s [1] 6 0 where
  root : s.main = formattedMain
  boot : ∀ i < 512, s.block 0 i = 0

/-- Such a partition on which the first entry is not in use where it is read for the first time: the
walk that creates it goes on from the boot block. -/
structure Started (env : Env) (s : Volume) : Prop extends Directory s [1] 6 0 where
  root : s.main = formattedMain
  unused : ((extend env s 1 1 6 0).entryIn (s.entryIn 0).nextIndexStart).inUse = false

omit [SectorAccess] in
theorem block_writeHeader (s : Volume) (c : U64) : (writeHeader s).block c =
    if c = 2 then fun _ => 0
    else if c = 1 then mainByte formattedMain
    else s.sectors (c + s.lbaStart.setWidth 64) := by
  have plain : ({ s with main := formattedMain } : Volume).Plain := rfl
  have plain' : ({ s with main := formattedMain }.putBlock 1 (mainByte formattedMain)).Plain := rfl
  rw [writeHeader, block_putBlock plain', block_putBlock plain, Volume.block,
    blockToLBA_of_plain plain]

theorem filled_writeHeader (zeroed : Zeroed s) : (writeHeader s).Filled 0 := by
  have plain : (writeHeader s).Plain := rfl
  intro b hb
  have zero := zeroed.zero 4 (by have := zeroed.reserved; change 4 < _; omega) b.toNat
    (hb.trans_le capacity_le)
  rw [fbbGetBlock_of_plain plain, if_pos hb, block_writeHeader, if_neg (by decide),
    if_neg (by decide), zero]
  simp

/-- The header on a partition without a mark past the reserved blocks. -/
theorem reserved_directory (empty : ∀ b : U64, b.toNat < capacity →
      fbbGetBlock (writeHeader s) b = true → b.toNat < 6) :
    ∃ t, (List.range 6).foldlM (fun s i => fbbSetBlock s (BitVec.ofNat 64 i)) (writeHeader s) =
        .ok t ∧
      Directory t [1] 6 0 ∧ t.main = formattedMain ∧ t.lbaStart = s.lbaStart ∧
        t.sectorCount = s.sectorCount ∧ ∀ c, c ≠ 4 → t.block c = (writeHeader s).block c := by
  obtain ⟨t, eq, plain, filled, main, lba, count, block⟩ :=
    @reserve_blocks _ (writeHeader s) 6 rfl (le_capacity_of_le (by decide)) empty
  have main : t.main = formattedMain := main
  have one : t.block 1 = mainByte formattedMain := by
    rw [block 1 (by decide), block_writeHeader, if_neg (by decide), if_pos rfl]
  have node : t.node 1 = formattedMain.entry := by rw [node, if_pos rfl, main]
  have cached : t.Cached := by rw [Cached, one, main]; exact mainOf_eq fun _ _ => rfl
  have entries : Entries t 1 0 [1] := by
    refine entries_cons.mpr ⟨rfl, by decide, by decide, ?_, entries_nil.mpr ?_⟩
    · rw [node]; rfl
    · rw [Volume.next, node]; rfl
  have disk : Disk t [1] 6 := ⟨⟨plain, cached, entries, by decide⟩, filled, by decide,
    le_capacity_of_le (by decide), by simp⟩
  have fs : FileSystem t [1] 6 0 := ⟨disk, by decide, fun k hk => by
    obtain rfl : k = 0 := by simpa using hk
    change (t.node 1).inUse = _
    rw [node]
    rfl⟩
  have tree : Tree (rows t [1]) 0 := by
    refine ⟨by decide, fun k pos le => by omega, fun d hd _ => ?_⟩
    obtain rfl : d = 0 := by omega
    refine linked_nil.mpr ?_
    change (t.node 1).unlinked.start = 0
    rw [node]
    rfl
  exact ⟨t, eq, ⟨fs, tree⟩, main, lba, count, block⟩

theorem bare_of_zeroed (zeroed : Zeroed s) : ∃ t, Bare t ∧ t.lbaStart = s.lbaStart ∧
    (List.range 6).foldlM (fun s i => fbbSetBlock s (BitVec.ofNat 64 i)) (writeHeader s) =
      .ok t := by
  obtain ⟨t, eq, dir, main, lba, -, block⟩ := reserved_directory fun b hb marked => by
    have := (filled_writeHeader zeroed b hb).mp marked
    omega
  refine ⟨t, ⟨dir, main, fun i hi => ?_⟩, lba, eq⟩
  rw [block 0 (by decide), block_writeHeader, if_neg (by decide), if_neg (by decide)]
  exact zeroed.zero 0 (by have := zeroed.reserved; change 0 < _; omega) i hi

/-! ## The first entry -/

omit [SectorAccess] in
theorem entryIn_of_zero (boot : ∀ i < 512, s.block 0 i = 0) :
    (s.entryIn 0).nextIndexStart = 0 ∧ (s.entryIn 0).inUse = false := by
  constructor
  · refine field_eq (by decide) fun k hk => ?_
    rw [boot _ (by omega), byteOf]
    simp
  · have flags : (s.entryIn 0).flags = 0 := boot _ (by decide)
    rw [Entry.inUse, flags]
    rfl

/-- The first entry that is created takes block 6. -/
theorem block_extend_first (plain : s.Plain) (one : b ≠ 1) (four : b ≠ 4) (six : b ≠ 6) :
    (extend env s 1 1 6 0).block b = s.block b := by
  rw [extend, block_putEntry (plain_putEntry.mpr (plain_mark.mpr plain)) (by decide) six,
    block_putEntry (plain_mark.mpr plain) (by decide) one, block_mark_of_lt plain (by decide) four]

theorem entryIn_extend_first (plain : s.Plain) :
    (extend env s 1 1 6 0).entryIn 0 = s.entryIn 0 := by
  rw [entryIn, block_extend_first plain (by decide) (by decide) (by decide), entryIn]

variable (env) in
theorem Bare.started (h : Bare s) : Started env s := by
  obtain ⟨next, unused⟩ := entryIn_of_zero h.boot
  refine ⟨h.toDirectory, h.root, ?_⟩
  rw [next, entryIn_extend_first h.plain, unused]

/-- The chain has no second entry yet. The one that is created for it is linked, but the walk that
creates it goes on from block 0. -/
theorem readEntry_first (strict : env.findFreeBlock = findBlock) (fuel : 2 ≤ env.fuel)
    (h : Directory s [1] 6 0) (root : s.main = formattedMain) : readEntry env 1 s =
      .ok (extend env s 1 1 6 0,
        (extend env s 1 1 6 0).entryIn (s.entryIn 0).nextIndexStart) := by
  obtain ⟨d, hd⟩ : ∃ d, env.fuel = d + 1 + 1 := ⟨env.fuel - 2, by omega⟩
  have created := @createEntryAt_of_disk _ env s 1 1 6 d [] strict h.toDisk rfl
  have start : s.main.entry.nextIndexStart = 0 := by rw [root]; rfl
  have rounds : ((1 : U64) + 1).toNat - 1 = 1 := rfl
  have room : 6 < capacity := le_capacity_of_le (by decide)
  rw [readEntry, readEntryAt, getEntryBlock, hd, getEntryBlockWithin, if_neg (by decide), rounds,
    enumerate, if_pos start, created]
  rw [if_pos room, ok_bind, enumerate, ok_bind]
  dsimp only
  rw [start, if_neg (by decide)]
  change Except.ok (extend env s 1 1 6 0, (extend env s 1 1 6 0).entryIn
    ((extend env s 1 1 6 0).entryIn 0).nextIndexStart) = _
  rw [entryIn_extend_first h.plain]

theorem first_entry (strict : env.findFreeBlock = findBlock) (fuel : 2 ≤ env.fuel)
    (h : Started env s) :
    findFreeEntry env s = .ok (extend env s 1 1 6 0, 1) ∧
      findFreeEntry env (extend env s 1 1 6 0) = .ok (extend env s 1 1 6 0, 1) ∧
      Directory (extend env s 1 1 6 0) [1, 6] 7 0 ∧ Faithful (extend env s 1 1 6 0) [1, 6] ∧
      (extend env s 1 1 6 0).lbaStart = s.lbaStart ∧
      rows (extend env s 1 1 6 0) [1, 6] 0 = formattedMain.entry := by
  have grown : Grown s [1] 6 (extend env s 1 1 6 0) [1, 6] 7 :=
    @Disk.extend _ env s 1 1 6 [] h.toDisk rfl (le_capacity_of_le (by decide))
  have hb : (6 : U64) ∉ ([] : List U64) ++ [1] := by decide
  have dir := grown.directory h.toDirectory
  have faithful : Faithful (extend env s 1 1 6 0) [1, 6] :=
    Faithful.extend (p := []) h.toChain rfl hb (by decide) fun x hx => by cases hx
  obtain ⟨m, hm⟩ : ∃ m, env.fuel = m + 1 + 1 := ⟨env.fuel - 2, by omega⟩
  have inUse : s.main.entry.inUse = true := by rw [h.root]; rfl
  have inUse' : (extend env s 1 1 6 0).main.entry.inUse = true := dir.inUse 0 (by decide)
  have read := readEntry_first strict fuel h.toDirectory h.root
  have again : readEntry env 1 (extend env s 1 1 6 0) =
      .ok (extend env s 1 1 6 0, (extend env s 1 1 6 0).node 6) :=
    dir.readEntry_eq (k := 1) (by omega) (by decide)
  have free : ((extend env s 1 1 6 0).node 6).inUse = false := dir.inUse 1 (by decide)
  refine ⟨?_, ?_, dir, faithful, grown.lbaStart, ?_⟩
  · rw [findFreeEntry, hm, findFreeEntryFrom, if_pos inUse, read, ok_bind]
    dsimp only
    rw [findFreeEntryFrom, h.unused]
    rfl
  · rw [findFreeEntry, hm, findFreeEntryFrom, if_pos inUse', again, ok_bind]
    dsimp only
    rw [findFreeEntryFrom, free]
    rfl
  · have node : s.node 1 = formattedMain.entry := by rw [Volume.node, if_pos rfl, h.root]
    rw [grown.rows_eq (by decide), rows_eq (by decide)]
    change (s.node 1).unlinked = _
    rw [node]
    rfl

/-! ## The steps of the formatter -/

/-- A file of one block does not lie in block 0 or 7. -/
def Apart (e : Entry) : Prop := e.size = 1 → e.start ≠ 0 ∧ e.start ≠ 7

/-- The disk between two steps: `n` blocks are marked, of which block 7 belongs to no entry, and
there is no entry that is not in use. -/
structure Stage (s : Volume) (l : List U64) (n u : Nat) : Prop extends Directory s l n u where
  faithful : Faithful s l
  length : l.length = u + 1
  first : [1, 6, 8] <+: l
  leaked : 7 ∉ l
  past : 8 ≤ n
  apart : ∀ k ≤ u, Apart (rows s l k)

/-- The next stage, with one more entry `e`. -/
structure NextStage (s : Volume) (l : List U64) (u : Nat) (e : Entry) (s' : Volume) (l' : List U64)
    (n' : Nat) : Prop extends Stage s' l' n' (u + 1) where
  old : ∀ k ≤ u, (rows s' l' k).isDirectory = (rows s l k).isDirectory
  new : rows s' l' (u + 1) = e

omit [SectorAccess] in
theorem Apart.entryAfter {o : Option Nat} (h : Apart e) : Apart (entryAfter f p o k e) := by
  intro size
  rw [start_entryAfter]
  have before : e.size = 1 := by
    rw [GemFS.entryAfter, parentAfter] at size
    split_ifs at size <;> exact size
  rw [if_neg fun hc => (h before).1 hc.2]
  exact h before

omit [SectorAccess] in
theorem apart_of_size (h : e.size ≠ 1) : Apart e := fun eq => absurd eq h

theorem ChildAdded.apart (added : ChildAdded s l n u p e s' l' n')
    (old : ∀ k ≤ u, Apart (rows s l k)) (new : Apart e) (hk : k ≤ u + 1) :
    Apart (rows s' l' k) := by
  rw [added.after k hk]
  rcases Nat.lt_or_ge u k with gt | le
  · obtain rfl : k = u + 1 := by omega
    rwa [addChild_new]
  · rw [addChild_old le]
    exact (old k le).entryAfter

theorem ChildAdded.isDirectory (added : ChildAdded s l n u p e s' l' n') (hk : k ≤ u) :
    (rows s' l' k).isDirectory = (rows s l k).isDirectory := by
  rw [added.after k (by omega), addChild_old hk, isDirectory_entryAfter]

theorem ChildAdded.rows_new (added : ChildAdded s l n u p e s' l' n') :
    rows s' l' (u + 1) = e := by
  rw [added.after _ (Nat.le_refl _), addChild_new]

theorem ChildAdded.nextStage {m : Nat} (added : ChildAdded s l m u p e s' l' n')
    (h : Stage s l n u) (hm : n ≤ m) (new : Apart e) : NextStage s l u e s' l' n' := by
  have whole : l.take (u + 2) = l := List.take_of_length_le (by have := h.length; omega)
  have more : l <+: l' := whole ▸ added.more
  have past := h.past
  have count := added.count
  exact ⟨⟨added.toDirectory, added.faithful h.faithful, added.length, h.first.trans more,
    fun mem => by
      have := (added.block 7 mem h.leaked).1
      change _ ≤ 7 at this
      omega, by omega,
    fun k hk => added.apart h.apart new hk⟩, fun k hk => added.isDirectory hk, added.rows_new⟩

section Steps

variable (strict : env.findFreeBlock = findBlock) (fuel : 514 ≤ env.fuel)
include strict fuel

theorem mkdir_step (h : Directory s l n u) (long : 1 < l.length) (low : p ≤ u)
    (hp : args.parentIndex = BitVec.ofNat 64 p) (dir : (rows s l p).isDirectory = true)
    (inUse : args.flags.getLsbD 0 = true) (name : args.nameLen.toNat ≤ 128)
    (room : n + (u + 2 - l.length) + 1 ≤ 511) :
    ∃ s' l' n', mkdir env args s = .ok (s', BitVec.ofNat 64 (u + 1)) ∧
      ChildAdded s l n u p (newDir args (BitVec.ofNat 64 (u + 1))) s' l' n' := by
  obtain ⟨⟨s', f⟩, eq, rfl, l', n', added⟩ :=
    Ends.ok_of (mkdir_directory strict fuel h long low hp dir inUse name) fun c hc => by
      have := le_capacity_of_le room
      have := hc.2
      omega
  exact ⟨s', l', n', eq, added⟩

theorem createFile_step (size : U64) (h : Directory s l n u) (long : 1 < l.length) (low : p ≤ u)
    (hp : args.parentIndex = BitVec.ofNat 64 p) (dir : (rows s l p).isDirectory = true)
    (inUse : args.flags.getLsbD 0 = true) (file : args.flags.getLsbD 4 = false)
    (name : args.nameLen.toNat ≤ 128) (room : n + size.toNat + (u + 2 - l.length) + 1 ≤ 511) :
    ∃ s' l' n', createFile env args size s = .ok (s', BitVec.ofNat 64 (u + 1)) ∧
      ChildAdded s l (n + size.toNat) u p
        (newFile args (BitVec.ofNat 64 (u + 1)) (BitVec.ofNat 64 n) size) s' l' n' := by
  obtain ⟨⟨s', f⟩, eq, rfl, l', n', added⟩ :=
    Ends.ok_of (@createFile_directory _ env s n u p l args size strict fuel h long low hp dir inUse
      file name) fun c hc => by
        have := le_capacity_of_le room
        have := hc.2
        omega
  rw [Nat.min_eq_right (by have := le_capacity_of_le room; omega)] at added
  exact ⟨s', l', n', eq, added⟩

theorem createProgram_step (lba : U64) (h : Directory s l n u) (long : 1 < l.length) (low : p ≤ u)
    (hp : args.parentIndex = BitVec.ofNat 64 p) (dir : (rows s l p).isDirectory = true)
    (inUse : args.flags.getLsbD 0 = true) (file : args.flags.getLsbD 4 = false)
    (name : args.nameLen.toNat ≤ 128) (room : n + 9 + (u + 2 - l.length) + 1 ≤ 511) :
    ∃ s' l' n', createProgram env args lba s = .ok s' ∧
      ∃ start, ChildAdded s l (n + 9) u p
        (newFile args (BitVec.ofNat 64 (u + 1)) start 9) s' l' n' := by
  obtain ⟨t, l', n', eq, added⟩ :=
    createFile_step strict fuel 9 h long low hp dir inUse file name room
  have hk : u + 1 < l'.length := by have := added.length; omega
  have last : (t.node l'[u + 1]).unlinked =
      newFile args (BitVec.ofNat 64 (u + 1)) (BitVec.ofNat 64 n) 9 := by
    rw [← rows_eq hk, added.rows_new]
  have fields {α : Type} (g : Entry → α) (hg : ∀ e, g e.unlinked = g e) :
      g (t.node l'[u + 1]) = g (newFile args (BitVec.ofNat 64 (u + 1)) (BitVec.ofNat 64 n) 9) := by
    rw [← hg, last]
  have done := added.rewrite env
    { t.node l'[u + 1] with start := lbaToBlock t lba } hk (added.index_ofNat hk) rfl
    (fields Entry.parentIndex fun _ => rfl) (fields Entry.siblingIndex fun _ => rfl)
    (fields Entry.flags fun _ => rfl) file
  have entry : { t.node l'[u + 1] with start := lbaToBlock t lba }.unlinked =
      newFile args (BitVec.ofNat 64 (u + 1)) (lbaToBlock t lba) 9 :=
    congrArg (fun e : Entry => { e with start := lbaToBlock t lba }) last
  rw [entry] at done
  refine ⟨_, l', n', ?_, _, done⟩
  rw [createProgram, eq, ok_bind]
  dsimp only
  rw [added.readEntry_eq (by omega) hk, ok_bind, added.writeEntry_eq (by omega) hk]

theorem Stage.mkdir (args : CreateArgs) (h : Stage s l n u) (low : p ≤ u) (hp : args.parentIndex = BitVec.ofNat 64 p)
    (dir : (rows s l p).isDirectory = true) (inUse : args.flags.getLsbD 0 = true)
    (name : args.nameLen.toNat ≤ 128) (room : n + 2 ≤ 511) :
    ∃ s' l', GemFS.mkdir env args s = .ok (s', BitVec.ofNat 64 (u + 1)) ∧
      NextStage s l u (newDir args (BitVec.ofNat 64 (u + 1))) s' l' (n + 2) := by
  have length := h.length
  have long := h.first.length_le
  obtain ⟨s', l', n', eq, added⟩ := mkdir_step strict fuel h.toDirectory (by simp at long; omega)
    low hp dir inUse name (by omega)
  obtain rfl : n' = n + 2 := by have := added.count; omega
  exact ⟨s', l', eq, added.nextStage h (Nat.le_refl n)
    (apart_of_size (show (0 : U64) ≠ 1 by decide))⟩

theorem Stage.createProgram (args : CreateArgs) (lba : U64) (h : Stage s l n u) (low : p ≤ u)
    (hp : args.parentIndex = BitVec.ofNat 64 p) (dir : (rows s l p).isDirectory = true)
    (inUse : args.flags.getLsbD 0 = true) (file : args.flags.getLsbD 4 = false)
    (name : args.nameLen.toNat ≤ 128) (room : n + 11 ≤ 511) :
    ∃ s' l' e, GemFS.createProgram env args lba s = .ok s' ∧ NextStage s l u e s' l' (n + 11) := by
  have length := h.length
  have long := h.first.length_le
  obtain ⟨s', l', n', eq, start, added⟩ := createProgram_step strict fuel lba h.toDirectory
    (by simp at long; omega) low hp dir inUse file name (by omega)
  obtain rfl : n' = n + 11 := by have := added.count; omega
  exact ⟨s', l', _, eq, added.nextStage h (by omega)
    (apart_of_size (show (9 : U64) ≠ 1 by decide))⟩

end Steps

/-! ## The contents of a file -/

/-- A block among those that the disk driver writes gets its part of the buffer. -/
theorem block_putSectors (h : s.Plain) (buffer : Nat → U8) (count : U16) (c : U64) :
    (putSectors s (blockToLBA s b) buffer count).block c =
      if (c - b).toNat < sectorsMoved count then
        fun i => if count = 0 then 0 else buffer (512 * (c - b).toNat + i)
      else s.block c := by
  have apart : blockToLBA s c - blockToLBA s b = c - b := by
    rw [blockToLBA_of_plain h, blockToLBA_of_plain h]
    grind
  rw [← apart]
  rfl

/-- A stage is seen in the bitmap and the entries. -/
theorem Stage.congr (h : Stage s l n u) (plain : s'.Plain) (cached : s'.Cached)
    (filled : s'.Filled n) (same : ∀ b ∈ l, s'.node b = s.node b) (faithful : Faithful s' l) :
    Stage s' l n u := by
  have row (k : Nat) (hk : k ≤ u) : rows s' l k = rows s l k := by
    have := h.length
    rw [rows_eq (by omega), rows_eq (by omega), same _ (List.getElem_mem _)]
  refine ⟨⟨⟨⟨⟨plain, cached, h.entries.congr same, h.short⟩, filled, h.reserved, h.le, h.placed⟩,
    h.used, fun k hk => ?_⟩, h.tree.of_eq row⟩, faithful, h.length, h.first, h.leaked, h.past,
    fun k hk => ?_⟩
  · rw [same _ (List.getElem_mem _), h.inUse k hk]
  · rw [row k hk]
    exact h.apart k hk

/-- Blocks that hold no entry get a file's contents. -/
theorem Stage.putSectors {count : U16} (buffer : Nat → U8) (h : Stage s l n u)
    (clear : ∀ c : U64, (c - b).toNat < sectorsMoved count → c ∉ l ∧ c ≠ 4) :
    Stage (putSectors s (blockToLBA s b) buffer count) l n u ∧
      ∀ c ∈ l, (putSectors s (blockToLBA s b) buffer count).node c = s.node c := by
  have plain : (GemFS.putSectors s (blockToLBA s b) buffer count).Plain := h.plain
  have block := block_putSectors (b := b) h.plain buffer count
  have kept (c : U64) (hc : c ∈ l) :
      (GemFS.putSectors s (blockToLBA s b) buffer count).block c = s.block c := by
    rw [block, if_neg fun inside => (clear c inside).1 hc]
  have same (c : U64) (hc : c ∈ l) :
      (GemFS.putSectors s (blockToLBA s b) buffer count).node c = s.node c := by
    rw [node, node, entryIn, entryIn, kept c hc]
    rfl
  obtain ⟨r, eq⟩ := h.exists_cons
  refine ⟨h.congr plain ?_ (fun c hc => ?_) same fun c hc => ?_, same⟩
  · rw [Cached, kept 1 (by simp [eq])]
    exact h.cached
  · have four : (GemFS.putSectors s (blockToLBA s b) buffer count).block 4 = s.block 4 := by
      rw [block, if_neg fun inside => (clear 4 inside).2 rfl]
    rw [fbbGetBlock_of_plain plain, four, ← fbbGetBlock_of_plain h.plain]
    exact h.filled c hc
  · rw [same c hc]
    exact h.faithful c hc

/-- `GemFS_WriteFile` into a file whose blocks hold no entry. -/
theorem Stage.writeFile (env : Env) (buffer : Nat → U8) (fuel : 0 < env.fuel) (h : Stage s l n u)
    (hk : k ≤ u) (file : (rows s l k).isDirectory = false)
    (clear : ∀ c : U64, (c - (rows s l k).start).toNat < sectorsMoved ((rows s l k).size.setWidth 16) →
      c ∉ l ∧ c ≠ 4) :
    ∃ t, GemFS.writeFile env buffer (BitVec.ofNat 64 k) s = .ok t ∧ Stage t l n u ∧
      (∀ c ∈ l, t.node c = s.node c) ∧ ∀ c ∉ l, t.block c =
        if (c - (rows s l k).start).toNat < sectorsMoved ((rows s l k).size.setWidth 16) then
          fun i => if (rows s l k).size.setWidth 16 = (0 : U16) then 0
            else buffer (512 * (c - (rows s l k).start).toNat + i)
        else s.block c := by
  have lt : k < l.length := by have := h.length; omega
  rw [rows_eq lt] at file clear ⊢
  obtain ⟨put, same⟩ := h.putSectors buffer clear
  have count : ((s.node l[k]).size * blockSize s).setWidth 16 =
      ((s.node l[k]).unlinked.size.setWidth 16 : U16) := by
    rw [blockSize_of_plain h.plain]
    exact congrArg _ (BitVec.mul_one _)
  change (s.node l[k]).isDirectory = false at file
  have root := put.root_ofNat lt
  have mem := List.getElem_mem lt
  have node (c : U64) (hc : c ∈ l) : (putEntry env (GemFS.putSectors s
      (blockToLBA s (s.node l[k]).unlinked.start) buffer ((s.node l[k]).unlinked.size.setWidth 16))
        (BitVec.ofNat 64 k) l[k] (s.node l[k])).node c =
          (GemFS.putSectors s (blockToLBA s (s.node l[k]).unlinked.start) buffer
            ((s.node l[k]).unlinked.size.setWidth 16)).node c := by
    rw [node_putEntry _ _ put.plain root]
    split_ifs with eq
    · rw [eq]
      exact (same _ mem).symm
    · rfl
  refine ⟨_, ?_, put.congr (plain_putEntry.mpr put.plain) (cached_putEntry put.plain root put.cached)
    (put.filled.putEntry put.plain root (ne_of_mem_of_not_mem mem h.entries.apart)) node ?_,
    fun c hc => (node c hc).trans (same c hc), fun c hc => ?_⟩
  · rw [GemFS.writeFile, h.readEntry_eq fuel lt, ok_bind]
    dsimp only
    rw [file, if_neg nofun, count]
    exact put.writeEntry_eq fuel lt
  · refine Faithful.put_at env put.toDisk lt root ?_ ?_ put.faithful
    · exact h.index_getElem lt
    · exact h.index_ofNat lt
  · have other : c ≠ l[k] := fun eq => hc (eq ▸ mem)
    rw [block_putEntry put.plain root other, block_putSectors h.plain]

/-! ## The whole format -/

/-- `GemFS_FormatPartition` up to the boot message, of whose file it gives the index. -/
def formatEntries (env : Env) (s : Volume) : Except Stop (Volume × U64) := do
  let s ← (List.range 6).foldlM (fun s i => fbbSetBlock s (BitVec.ofNat 64 i)) (writeHeader s)
  let (s, _) ← mkdir env ⟨cString "dev", 4, 0b00010111, 0⟩ s
  let (s, _) ← mkdir env ⟨cString "zero", 5, 0b00010111, 1⟩ s
  let (s, _) ← mkdir env ⟨cString "urand", 6, 0b00010111, 1⟩ s
  let (s, etc) ← mkdir env ⟨cString "etc", 4, 0b00010111, 0⟩ s
  let (s, bin) ← mkdir env ⟨cString "bin", 4, 0b00010111, 0⟩ s
  let s ← createProgram env ⟨cString "shell.elf", 9, 0b00001111, bin⟩ 1500 s
  let s ← createProgram env ⟨cString "hello_world.elf", 15, 0b00001111, bin⟩ 1600 s
  let s ← createProgram env ⟨cString "chudedit.elf", 12, 0b00001111, bin⟩ 1800 s
  createFile env ⟨cString "boot_msg.txt", 13, 0b00001111, etc⟩ 1 s

theorem formatPartition_eq (env : Env) (bootMsg : Nat → U8) (s : Volume) :
    formatPartition env bootMsg s =
      formatEntries env s >>= fun r => writeFile env bootMsg r.2 r.1 := by
  simp only [formatPartition, formatEntries, bind_assoc]

/-- The file of the boot message has one block. -/
theorem block_of_bootFile {args : CreateArgs} {c : U64}
    (inside : (c - (newFile args 9 49 1).start).toNat <
      sectorsMoved ((newFile args 9 49 1).size.setWidth 16)) : c = 49 := by
  change (c - 49).toNat < sectorsMoved 1 at inside
  rw [sectorsMoved_one] at inside
  have zero : c - 49 = 0 := BitVec.eq_of_toNat_eq (Nat.lt_one_iff.mp inside)
  grind

section Format

variable (strict : env.findFreeBlock = findBlock) (fuel : 514 ≤ env.fuel)
include strict fuel

/-- The first three directories. Block 7, which is reserved for the first one, is lost. -/
theorem first_directories (started : Started env s) :
    ∃ s₁ s₂ s₃ l, mkdir env ⟨cString "dev", 4, 0b00010111, 0⟩ s = .ok (s₁, 1) ∧
      mkdir env ⟨cString "zero", 5, 0b00010111, 1⟩ s₁ = .ok (s₂, 2) ∧
      mkdir env ⟨cString "urand", 6, 0b00010111, 1⟩ s₂ = .ok (s₃, 3) ∧
      Stage s₃ l 12 3 ∧ (rows s₃ l 0).isDirectory = true := by
  obtain ⟨found, again, dir, faithful, -, root⟩ := first_entry strict (by omega) started
  obtain ⟨t, ht⟩ : ∃ t, extend env s 1 1 6 0 = t := ⟨_, rfl⟩
  rw [ht] at found again dir faithful root
  have isDir : (rows t [1, 6] 0).isDirectory = true := by rw [root]; rfl
  obtain ⟨s₁, l₁, n₁, eq₁, dev⟩ := @mkdir_step _ env t 7 0 0 [1, 6]
    ⟨cString "dev", 4, 0b00010111, 0⟩ strict fuel dir (by decide) (by decide) rfl isDir rfl
    (by decide) (by decide)
  have first : mkdir env ⟨cString "dev", 4, 0b00010111, 0⟩ s = .ok (s₁, 1) := by
    rw [mkdir, found]
    rw [mkdir, again] at eq₁
    exact eq₁
  obtain rfl : [1, 6] = l₁ := dev.more.eq_of_length dev.length.symm
  obtain rfl : n₁ = 8 := by have := dev.count; simp at this; omega
  obtain ⟨s₂, l₂, n₂, eq₂, zero⟩ := @mkdir_step _ env s₁ 8 1 1 [1, 6]
    ⟨cString "zero", 5, 0b00010111, 1⟩ strict fuel dev.toDirectory (by decide) (by decide) rfl
    (by rw [dev.rows_new]; rfl) rfl (by decide) (by decide)
  obtain rfl : n₂ = 10 := by have := zero.count; simp at this; omega
  -- the entry after those two lies past the lost block
  obtain ⟨r, rfl⟩ : [1, 6] <+: l₂ := zero.more
  obtain ⟨x, rfl⟩ := List.length_eq_one_iff.mp (by simpa using zero.length : r.length = 1)
  have absent : x ∉ [1, 6] := fun mem => by
    have := (List.nodup_append'.mp zero.nodup).2.2
    exact this mem (by simp)
  obtain rfl : x = 8 := by
    have := zero.block x (by simp) absent
    exact BitVec.eq_of_toNat_eq (show x.toNat = 8 by omega)
  have vacuous (f p : U64) (name : Nat → U8) (len : U64) (flags : U8) :
      Apart (newDir ⟨name, len, flags, p⟩ f) := apart_of_size (show (0 : U64) ≠ 1 by decide)
  have apart₀ (k : Nat) (hk : k ≤ 0) : Apart (rows t [1, 6] k) := by
    obtain rfl : k = 0 := by omega
    rw [root]
    exact apart_of_size (show (0 : U64) ≠ 1 by decide)
  have apart₁ (k : Nat) (hk : k ≤ 1) : Apart (rows s₁ [1, 6] k) :=
    dev.apart apart₀ (vacuous _ _ _ _ _) hk
  have stage : Stage s₂ [1, 6, 8] 10 2 := ⟨zero.toDirectory, zero.faithful (dev.faithful faithful),
    rfl, List.prefix_rfl, by decide, by decide,
    fun k hk => zero.apart apart₁ (vacuous _ _ _ _ _) hk⟩
  have one : (rows s₂ [1, 6, 8] 1).isDirectory = true := by
    have := zero.isDirectory (k := 1) (by decide)
    exact this.trans (by rw [dev.rows_new]; rfl)
  obtain ⟨s₃, l₃, eq₃, urand⟩ := stage.mkdir strict fuel
    ⟨cString "urand", 6, 0b00010111, 1⟩ (by decide : 1 ≤ 2) rfl one rfl (by decide) (by decide)
  refine ⟨s₁, s₂, s₃, l₃, first, eq₂, eq₃, urand.toStage, ?_⟩
  have := zero.isDirectory (k := 0) (by decide)
  rw [urand.old 0 (by decide)]
  exact this.trans ((dev.isDirectory (by decide)).trans isDir)

/-- From a good start the formatter makes ten entries and marks 52 blocks. The last file has block
49, which holds no entry. -/
theorem formatEntries_started {s₀ : Volume} (started : Started env s₀)
    (eq₀ : (List.range 6).foldlM (fun s i => fbbSetBlock s (BitVec.ofNat 64 i)) (writeHeader s) =
      .ok s₀) : ∃ t l, formatEntries env s = .ok (t, 9) ∧ Stage t l 52 9 ∧
        rows t l 9 = newFile ⟨cString "boot_msg.txt", 13, 0b00001111, 4⟩ 9 49 1 ∧ 49 ∉ l := by
  obtain ⟨s₁, s₂, s₃, l₃, eq₁, eq₂, eq₃, stage, root⟩ := first_directories strict fuel started
  obtain ⟨s₄, l₄, eq₄, etc⟩ := stage.mkdir strict fuel ⟨cString "etc", 4, 0b00010111, 0⟩
    (by decide : 0 ≤ 3) rfl root rfl (by decide) (by decide)
  obtain ⟨s₅, l₅, eq₅, bin⟩ := etc.toStage.mkdir strict fuel
    ⟨cString "bin", 4, 0b00010111, 0⟩ (by decide : 0 ≤ 4) rfl ((etc.old 0 (by decide)).trans root) rfl (by decide) (by decide)
  have bin₅ : (rows s₅ l₅ 5).isDirectory = true := by rw [bin.new]; rfl
  have etc₅ : (rows s₅ l₅ 4).isDirectory = true := by rw [bin.old 4 (by decide), etc.new]; rfl
  obtain ⟨s₆, l₆, e₆, eq₆, shell⟩ := bin.toStage.createProgram strict fuel
    ⟨cString "shell.elf", 9, 0b00001111, 5⟩ 1500
    (by decide : 5 ≤ 5) rfl bin₅ rfl rfl (by decide) (by decide)
  obtain ⟨s₇, l₇, e₇, eq₇, hello⟩ := shell.toStage.createProgram strict fuel
    ⟨cString "hello_world.elf", 15, 0b00001111, 5⟩ 1600
    (by decide : 5 ≤ 6) rfl ((shell.old 5 (by decide)).trans bin₅) rfl rfl (by decide) (by decide)
  have bin₇ : (rows s₇ l₇ 5).isDirectory = true :=
    (hello.old 5 (by decide)).trans ((shell.old 5 (by decide)).trans bin₅)
  obtain ⟨s₈, l₈, e₈, eq₈, edit⟩ := hello.toStage.createProgram strict fuel
    ⟨cString "chudedit.elf", 12, 0b00001111, 5⟩ 1800
    (by decide : 5 ≤ 7) rfl bin₇ rfl rfl (by decide) (by decide)
  have etc₈ : (rows s₈ l₈ 4).isDirectory = true :=
    (edit.old 4 (by decide)).trans ((hello.old 4 (by decide)).trans
      ((shell.old 4 (by decide)).trans etc₅))
  have length := edit.length
  have long : 1 < l₈.length := by omega
  obtain ⟨s₉, l₉, n₉, eq₉, added⟩ := @createFile_step _ env s₈ 49 8 4 l₈
    ⟨cString "boot_msg.txt", 13, 0b00001111, 4⟩ strict fuel 1 edit.toDirectory long (by decide : 4 ≤ 8) rfl etc₈ rfl rfl
    (by decide) (by simp [length])
  obtain rfl : n₉ = 52 := by have := added.count; simp at this; omega
  have apart : Apart (newFile ⟨cString "boot_msg.txt", 13, 0b00001111, 4⟩ (BitVec.ofNat 64 9)
      (BitVec.ofNat 64 49) 1) := fun _ => ⟨by decide, by decide⟩
  have msg := added.nextStage edit.toStage (by decide) apart
  have outside : (49 : U64) ∉ l₉ := fun mem => by
    by_cases old : (49 : U64) ∈ l₈
    · exact absurd (edit.placed 49 old) (by decide)
    · exact absurd (added.block 49 mem old).1 (by decide)
  refine ⟨s₉, l₉, ?_, msg.toStage, msg.new, outside⟩
  have eq₄ : mkdir env _ s₃ = .ok (s₄, 4) := eq₄
  have eq₅ : mkdir env _ s₄ = .ok (s₅, 5) := eq₅
  rw [formatEntries, eq₀]
  simp only [ok_bind, eq₁, eq₂, eq₃, eq₄, eq₅, eq₆, eq₇, eq₈]
  exact eq₉

theorem formatPartition_started {s₀ : Volume} (started : Started env s₀) (bootMsg : Nat → U8)
    (eq₀ : (List.range 6).foldlM (fun s i => fbbSetBlock s (BitVec.ofNat 64 i)) (writeHeader s) =
      .ok s₀) : ∃ t l, formatPartition env bootMsg s = .ok t ∧ Stage t l 52 9 := by
  obtain ⟨u, l, eq, stage, boot, outside⟩ := formatEntries_started strict fuel started eq₀
  have file : (rows u l 9).isDirectory = false := by rw [boot]; rfl
  obtain ⟨t, written, done, -⟩ := stage.writeFile env bootMsg (k := 9) (by omega) (by decide) file
    fun c inside => by
      rw [boot] at inside
      obtain rfl := block_of_bootFile inside
      exact ⟨outside, by decide⟩
  exact ⟨t, l, by rw [formatPartition_eq, eq]; exact written, done⟩

theorem formatPartition_stage (zeroed : Zeroed s) (bootMsg : Nat → U8) :
    ∃ t l, formatPartition env bootMsg s = .ok t ∧ Stage t l 52 9 := by
  obtain ⟨s₀, bare, -, eq₀⟩ := bare_of_zeroed zeroed
  exact formatPartition_started strict fuel (bare.started env) bootMsg eq₀

end Format

/-- A search that gives up when no block is free is not needed to format. -/
theorem Formatted.stage (kernel : env.findFreeBlock = findFreeBlock) (fuel : 514 ≤ env.fuel)
    (h : Formatted env s) : ∃ l, Stage s l 52 9 := by
  obtain ⟨s₀, bootMsg, zeroed, eq⟩ := h
  obtain ⟨t, l, go, stage⟩ := @formatPartition_stage _ env.strict s₀ rfl fuel zeroed bootMsg
  obtain rfl : t = s := Except.ok.inj (((formatPartition_follows kernel bootMsg s₀).ok go).symm.trans eq)
  exact ⟨l, stage⟩

end ChudOS.GemFS
