import ChudOS.Filesys.FileContents
import ChudOS.Userland.FileCalls

/-!
# What the shared buffer carries

`WRITE` writes the sectors of a file from the buffer, of which the caller filled the first bytes
only. `READ` reads the sectors that the byte count asks for, whatever the file has, and hands out
the buffer also when nothing was read. Of more than 64 KiB the floppy driver moves a part.

## Main definitions

* `StoresOwnBytes` — a `WRITE` stores the same file whatever the buffer held before.
* `RevealsOnlyFile` — what a `READ` gives to the caller depends on the file alone.
-/

namespace ChudOS.GemFS

open Volume Outcome

variable [SectorAccess]

/-- Byte `j` of a file. -/
def fileByte (s : Volume) (e : Entry) (j : Nat) : U8 :=
  s.block (e.start + BitVec.ofNat 64 (j / 512)) (j % 512)

/-- A file of at least one block, whose blocks hold neither an entry nor the bitmap. -/
structure PlainFile (s : Volume) (l : List U64) (u : Nat) (i : U64) : Prop where
  low : i.toNat ≤ u
  file : (rows s l i.toNat).isDirectory = false
  pos : 0 < (rows s l i.toNat).size.toNat
  small : (rows s l i.toNat).size.toNat < 2 ^ 16
  clear : ∀ b, Occupies (rows s l i.toNat) b → b ∉ l ∧ b ≠ 4

/-- From any two contents of the buffer the call leaves one and the same file, which begins with the
caller's bytes, and no other block without an entry is changed. -/
def StoresOwnBytes (env : Env) (d : FileDescriptor) (rcx : U64) (buffer : Nat → U8) (s : Volume)
    (l : List U64) (e : Entry) : Prop :=
  ∀ bounce bounce' : Nat → U8, (∀ i, 4096 ≤ i → bounce' i = bounce i) →
    ∃ x x', handleWrite env d rcx buffer ⟨s, bounce⟩ = .ok x ∧
      handleWrite env d rcx buffer ⟨s, bounce'⟩ = .ok x' ∧
      (∀ j < 512 * e.size.toNat, fileByte x'.volume e j = fileByte x.volume e j) ∧
      (∀ j < 512 * e.size.toNat, j < rcx.toNat → fileByte x.volume e j = buffer j) ∧
      ∀ b ∉ l, ¬ Occupies e b → x.volume.block b = s.block b

/-- Where the partition lies, and the size of its blocks. -/
structure Geometry where
  lbaStart : U32
  blockSize : U16

namespace Volume

def geometry (s : Volume) : Geometry := ⟨s.lbaStart, s.main.blockSize⟩

/-- The index names the entry, which is found without a change. -/
def Names (env : Env) (s : Volume) (i : U64) (e : Entry) : Prop := readEntry env i s = .ok (s, e)

end Volume

/-- How many sectors a `WRITE` to a file of a formatted partition stores. -/
def Entry.sectorsStored (e : Entry) : Nat := sectorsMoved (e.size.setWidth 16)

/-- How many sectors the blocks of a file have. -/
def Entry.sectorCount (e : Entry) (g : Geometry) : Nat := e.size.toNat * g.blockSize.toNat

/-- On two disks the sectors of a file are the same. -/
def SameSectors (g : Geometry) (e : Entry) (s s' : Volume) : Prop :=
  ∀ k < e.sectorCount g, ∀ j < 512, s'.sectors (blockToLBA s' e.start + BitVec.ofNat 64 k) j =
    s.sectors (blockToLBA s e.start + BitVec.ofNat 64 k) j

/-- A `READ` through a descriptor of the regular file `e` gives the same to the caller on any two
disks with the same file, whatever else they and the buffer hold. -/
def RevealsOnlyFile (g : Geometry) (e : Entry) (rcx : U64) : Prop :=
  ∀ env d buffer, ∀ x x' y y' : Transfer, ∀ given given' : Nat → U8, d.used = true →
    x.volume.geometry = g → x'.volume.geometry = g →
    x.volume.Names env d.gemfsIndex e → x'.volume.Names env d.gemfsIndex e →
    SameSectors g e x.volume x'.volume →
    handleRead env d rcx buffer x = .ok (y, given) →
    handleRead env d rcx buffer x' = .ok (y', given') → given' = given

variable {env : Env} {d : FileDescriptor} {s : Volume} {l : List U64} {n u j : Nat} {i size rcx : U64}
  {e : Entry} {buffer bounce : Nat → U8}

/-! ## Writing -/

omit [SectorAccess] in
/-- The files that a run makes are of this kind. -/
theorem Filed.plainFile (h : Filed s l n u i size) (pos : 0 < size.toNat) : PlainFile s l u i where
  low := h.low
  file := h.file
  pos := by rwa [h.size_eq]
  small := by
    have := h.small
    rw [h.size_eq]
    omega
  clear b inside := (h.clear b inside).2

omit [SectorAccess] in
theorem Entry.block_of_byte (small : e.size.toNat < 2 ^ 16) (hj : j < 512 * e.size.toNat) :
    (e.start + BitVec.ofNat 64 (j / 512) - e.start).toNat = j / 512 := by
  have offset : e.start + BitVec.ofNat 64 (j / 512) - e.start = BitVec.ofNat 64 (j / 512) := by grind
  rw [offset]
  exact Nat.mod_eq_of_lt (by omega)

theorem Entry.sectorsStored_le (pos : 0 < e.size.toNat) (small : e.size.toNat < 2 ^ 16) :
    e.sectorsStored ≤ e.size.toNat := by
  have narrow : (e.size.setWidth 16 : U16).toNat = e.size.toNat := Nat.mod_eq_of_lt small
  rw [sectorsStored, sectorsMoved, narrow]
  split_ifs <;> omega

/-- The bytes in the sectors that are stored come from the buffer, and no others change. -/
theorem handleWrite_stage (h : Stage s l n u) (fuel : 0 < env.fuel)
    (file : PlainFile s l u d.gemfsIndex) (entry : rows s l d.gemfsIndex.toNat = e) :
    ∃ t, handleWrite env d rcx buffer ⟨s, bounce⟩ = .ok ⟨t, copyBytes buffer rcx.toNat bounce⟩ ∧
      Stage t l n u ∧
      (∀ j < 512 * e.size.toNat, fileByte t e j =
        if j < 512 * e.sectorsStored then copyBytes buffer rcx.toNat bounce j else fileByte s e j) ∧
      ∀ b ∉ l, ¬ Occupies e b → t.block b = s.block b := by
  obtain ⟨low, isFile, pos, small, clear⟩ := file
  have stored := Entry.sectorsStored_le pos small
  obtain ⟨t, eq, stage, -, block⟩ := h.writeFile env (copyBytes buffer rcx.toNat bounce) fuel
    low isFile fun c inside => clear c (lt_of_lt_of_le inside stored)
  rw [BitVec.ofNat_toNat, BitVec.setWidth_eq] at eq
  rw [entry] at pos small clear stored block
  have some_block : e.size.setWidth 16 ≠ (0 : U16) := fun zero => by
    have none := congrArg BitVec.toNat zero
    rw [BitVec.toNat_setWidth, Nat.mod_eq_of_lt small] at none
    exact absurd none (Nat.ne_of_gt pos)
  refine ⟨t, by rw [handleWrite, eq]; rfl, stage, fun j hj => ?_, fun b hb outside => ?_⟩
  · have place := Entry.block_of_byte small hj
    have inside : Occupies e (e.start + BitVec.ofNat 64 (j / 512)) := by
      rw [Occupies, place]
      omega
    rw [fileByte, block _ (clear _ inside).1, place]
    by_cases moved : j < 512 * e.sectorsStored
    · rw [if_pos (show j / 512 < sectorsMoved _ from Nat.div_lt_of_lt_mul moved), if_pos moved,
        if_neg some_block, Nat.div_add_mod]
    · rw [if_neg fun lt => moved (by rw [Entry.sectorsStored]; omega), if_neg moved]
      rfl
  · rw [block b hb]
    exact if_neg fun inside => outside (lt_of_lt_of_le inside stored)

section Write

variable (h : Stage s l n u) (fuel : 0 < env.fuel) (file : PlainFile s l u d.gemfsIndex)
  (entry : rows s l d.gemfsIndex.toNat = e)
include h fuel file entry

/-- The first byte after those of the caller is one that the buffer held. -/
theorem not_storesOwnBytes (lt : rcx.toNat < min 4096 (512 * e.sectorsStored)) :
    ¬ StoresOwnBytes env d rcx buffer s l e := by
  intro own
  obtain ⟨x, x', run, run', same, -, -⟩ := own (fun _ => 0) (fun i => if i < 4096 then 1 else 0)
    fun i le => if_neg (Nat.not_lt.mpr le)
  have call (bounce : Nat → U8) :=
    @handleWrite_stage _ env d _ _ _ _ rcx _ buffer bounce h fuel file entry
  obtain ⟨t, eq, -, byte, -⟩ := call fun _ => 0
  obtain ⟨t', eq', -, byte', -⟩ := call fun i => if i < 4096 then 1 else 0
  obtain rfl := Except.ok.inj (eq.symm.trans run)
  obtain rfl := Except.ok.inj (eq'.symm.trans run')
  have stored := Entry.sectorsStored_le (entry ▸ file.pos) (entry ▸ file.small)
  have differ := same rcx.toNat (by omega)
  rw [byte' _ (by omega), byte _ (by omega), if_pos (by omega), if_pos (by omega), copyBytes,
    copyBytes, if_neg (Nat.lt_irrefl _), if_neg (Nat.lt_irrefl _), if_pos (by omega)] at differ
  cases differ

/-- A `WRITE` stores the caller's bytes only, exactly when these reach to the end of the buffer or of
the sectors that are stored, and the file held those that are past these sectors. -/
theorem stores_own_bytes_iff : StoresOwnBytes env d rcx buffer s l e ↔
    min 4096 (512 * e.sectorsStored) ≤ rcx.toNat ∧
      ∀ j, 512 * e.sectorsStored ≤ j → j < 512 * e.size.toNat → j < rcx.toNat →
        fileByte s e j = buffer j := by
  have call (bounce : Nat → U8) :=
    @handleWrite_stage _ env d _ _ _ _ rcx _ buffer bounce h fuel file entry
  constructor
  · intro own
    refine ⟨by_contra fun lt => not_storesOwnBytes h fuel file entry (Nat.not_le.mp lt) own, ?_⟩
    intro j past inside asked
    obtain ⟨t, eq, -, byte, -⟩ := call fun _ => 0
    obtain ⟨x, -, run, -, -, begins, -⟩ := own (fun _ => 0) (fun _ => 0) fun _ _ => rfl
    obtain rfl := Except.ok.inj (eq.symm.trans run)
    rw [← begins j inside asked, byte j inside, if_neg (Nat.not_lt.mpr past)]
  · rintro ⟨le, held⟩ bounce bounce' after
    obtain ⟨t, eq, -, byte, frame⟩ := call bounce
    obtain ⟨t', eq', -, byte', -⟩ := call bounce'
    refine ⟨_, _, eq, eq', fun j hj => ?_, fun j hj own => ?_, frame⟩
    · rw [byte' j hj, byte j hj, copyBytes, copyBytes]
      split_ifs with stored own
      · rfl
      · exact after j (by omega)
      · rfl
    · rw [byte j hj]
      split_ifs with stored
      · exact if_pos own
      · exact held j (Nat.not_lt.mp stored) hj own

end Write

/-- A descriptor of the entry `i`. -/
def openedOn (i : U64) : FileDescriptor := ⟨i, 0, 0, true⟩

/-- A file of one block in a directory of the formatter. -/
theorem exists_plainFile : ∃ s l n u i e, Stage s l n u ∧ PlainFile s l u i ∧
    rows s l i.toNat = e ∧ e.size = 1 := by
  obtain ⟨x, l, n, u, i, -, kept, size⟩ := exists_session
  have filed := kept.filed i 1 size
  exact ⟨x.volume, l, n, u, i, _, kept.toStage, filed.plainFile (by decide), rfl, filed.size_eq⟩

theorem sectorsStored_one (one : e.size = 1) : e.sectorsStored = 1 := by
  rw [Entry.sectorsStored, one]
  exact sectorsMoved_one

omit [SectorAccess] in
theorem stores_own_sector : letI : SectorAccess := .driver
    ∃ s l i e, (∃ n u, Stage s l n u) ∧ rows s l i.toNat = e ∧
      e.size = 1 ∧ StoresOwnBytes plainEnv (openedOn i) 512 (cString "contents") s l e := by
  obtain ⟨s, l, n, u, i, e, stage, file, entry, one⟩ := @exists_plainFile .driver
  refine ⟨s, l, i, e, ⟨n, u, stage⟩, entry, one, ?_⟩
  refine (@stores_own_bytes_iff .driver _ (openedOn i) s l n u 512 e _ stage (by decide) file
    entry).mpr ⟨?_, fun j past inside => ?_⟩
  · rw [@sectorsStored_one .driver _ one]
    decide
  · rw [@sectorsStored_one .driver _ one] at past
    rw [one] at inside
    exact absurd (Nat.lt_of_le_of_lt past inside) (by decide)

omit [SectorAccess] in
/-- Five bytes for a file of one block: the others come from the buffer. -/
theorem stores_other_bytes : letI : SectorAccess := .driver
    ∃ s l i e, (∃ n u, Stage s l n u) ∧ rows s l i.toNat = e ∧
      e.size = 1 ∧ ¬ StoresOwnBytes plainEnv (openedOn i) 5 (cString "hello") s l e := by
  obtain ⟨s, l, n, u, i, e, stage, file, entry, one⟩ := @exists_plainFile .driver
  refine ⟨s, l, i, e, ⟨n, u, stage⟩, entry, one, ?_⟩
  refine @not_storesOwnBytes .driver _ (openedOn i) s l n u 5 e _ stage (by decide) file entry ?_
  rw [@sectorsStored_one .driver _ one]
  decide

/-! ## Reading -/

variable {g : Geometry} {x y : Transfer} {given : Nat → U8}

theorem handleRead_file (used : d.used = true) (names : x.volume.Names env d.gemfsIndex e)
    (file : e.isDirectory = false) (run : handleRead env d rcx buffer x = .ok (y, given)) :
    given = copyBytes (getSectors x.volume (blockToLBA x.volume e.start) x.bounce
      ((rcx / 512 + 1).setWidth 16)) rcx.toNat buffer := by
  rw [handleRead, if_pos used, readFile, names, ok_bind] at run
  dsimp only at run
  rw [file, if_neg Bool.false_ne_true] at run
  exact (Prod.mk.inj (Except.ok.inj run)).2.symm

theorem handleRead_done (used : d.used = true) (names : x.volume.Names env d.gemfsIndex e) :
    ∃ y given, handleRead env d rcx buffer x = .ok (y, given) := by
  rw [handleRead, if_pos used, readFile, names, ok_bind]
  dsimp only
  split_ifs <;> exact ⟨_, _, rfl⟩

omit [SectorAccess] in
theorem toNat_sectors : (((rcx / 512 + 1).setWidth 16 : U16)).toNat =
    (rcx.toNat / 512 + 1) % 65536 := by
  have small : rcx.toNat / 512 + 1 < 2 ^ 64 := by
    have := rcx.isLt
    omega
  rw [BitVec.toNat_setWidth, BitVec.toNat_add, BitVec.toNat_udiv]
  change (rcx.toNat / 512 + 1) % 2 ^ 64 % 2 ^ 16 = _
  rw [Nat.mod_eq_of_lt small]

namespace Geometry

/-- The blocks of a partition lie at multiples of this from each other. -/
def unit (g : Geometry) : U64 :=
  if g.blockSize.setWidth 64 = (0 : U64) then 1 else g.blockSize.setWidth 64

def lba (g : Geometry) (b : U64) : U64 := b * g.unit + g.lbaStart.setWidth 64

omit [SectorAccess] in
theorem unit_bounds (g : Geometry) : 0 < g.unit.toNat ∧ g.unit.toNat < 2 ^ 16 := by
  have := g.blockSize.isLt
  rw [unit]
  split_ifs with zero
  · decide
  · have pos : (g.blockSize.setWidth 64 : U64).toNat ≠ 0 := fun eq =>
      zero (BitVec.eq_of_toNat_eq eq)
    rw [BitVec.toNat_setWidth] at pos ⊢
    omega

/-- A block just before the file, or two before it where the first one has the number 0. -/
def before (b : U64) : U64 := if b = 1 then -1 else b - 1

omit [SectorAccess] in
theorem before_ne_zero (b : U64) : before b ≠ 0 := by
  rw [before]
  split_ifs <;> grind

omit [SectorAccess] in
/-- From the start of a file it is a long way on to the block before it. -/
theorem far (g : Geometry) (b : U64) : 2 ^ 64 - 2 ^ 17 ≤ (g.lba (before b) - g.lba b).toNat := by
  have bounds := g.unit_bounds
  rw [before]
  split_ifs with one
  · have apart : g.lba (-1) - g.lba b = -(g.unit + g.unit) := by
      rw [lba, lba, one]
      grind
    rw [apart, BitVec.toNat_neg, BitVec.toNat_add]
    omega
  · have apart : g.lba (b - 1) - g.lba b = -g.unit := by
      rw [lba, lba]
      grind
    rw [apart, BitVec.toNat_neg]
    omega

end Geometry

theorem plainEnv_pos : 0 < plainEnv.fuel := Nat.lt_of_lt_of_le (by decide) plainEnv_fuel

/-- A disk on which the entry `e` with index 1 lies in the block `b`. -/
def soleEntry (g : Geometry) (e : Entry) (b : U64) (rest : U64 → Sector) : Volume where
  sectors := Function.update rest (g.lba b) (entryByte e)
  lbaStart := g.lbaStart
  sectorCount := 0
  main := ⟨fun _ => 0, g.blockSize, { zeroEntry with nextIndexStart := b }⟩
  written := fun _ => zeroEntry

omit [SectorAccess] in
theorem soleEntry_sectors {b lba : U64} {rest : U64 → Sector} (ne : lba ≠ g.lba b) :
    (soleEntry g e b rest).sectors lba = rest lba := Function.update_of_ne ne ..

theorem soleEntry_names {b : U64} {rest : U64 → Sector} (fuel : 0 < env.fuel) (hb : b ≠ 0) :
    (soleEntry g e b rest).Names env 1 e := by
  obtain ⟨depth, hd⟩ : ∃ depth, env.fuel = depth + 1 := ⟨env.fuel - 1, by omega⟩
  have found : getEntryBlock env 1 (soleEntry g e b rest) = .ok (soleEntry g e b rest, b) := by
    rw [getEntryBlock, hd, getEntryBlockWithin, if_neg (by decide)]
    exact if_neg hb
  have entry : (soleEntry g e b rest).entryIn b = e := by
    refine entryOf_eq fun i hi => ?_
    rw [Nat.zero_add]
    exact congrFun (Function.update_self ..) i
  rw [Names, readEntry, readEntryAt, found, ok_bind]
  dsimp only
  rw [if_neg (by decide), entry]
  rfl

omit [SectorAccess] in
theorem blockToLBA_eq (geometry : s.geometry = g) (b : U64) : blockToLBA s b = g.lba b := by
  rw [← geometry]
  rfl

/-- How many sectors a `READ` asks for. -/
def sectorsAsked (rcx : U64) : Nat := (rcx.toNat / 512 + 1) % 65536

/-- How many of these the driver moves. -/
def sectorsRead (rcx : U64) : Nat := sectorsMoved ((rcx / 512 + 1).setWidth 16)

section Driver

variable (lossy : SectorAccess.lossless = false)
include lossy

/-- What a `READ` gives to the caller, byte by byte. -/
theorem given_eq (used : d.used = true) (geometry : x.volume.geometry = g)
    (names : x.volume.Names env d.gemfsIndex e) (file : e.isDirectory = false)
    (run : handleRead env d rcx buffer x = .ok (y, given)) (hj : j < rcx.toNat) : given j =
      if j < 512 * sectorsAsked rcx ∧ j < 0x10000 then
        if j + 1 < 512 * sectorsRead rcx then
          x.volume.sectors (g.lba e.start + BitVec.ofNat 64 (j / 512)) (j % 512)
        else 0
      else x.bounce j := by
  rw [handleRead_file used names file run, copyBytes, if_pos hj, getSectors, toNat_sectors,
    blockToLBA_eq geometry]
  simp only [lossy, Bool.false_eq_true, false_or]
  rfl

/-- A byte that is read from behind the file shows. -/
theorem RevealsOnlyFile.within (only : RevealsOnlyFile g e rcx) (file : e.isDirectory = false)
    (asked : 512 * e.sectorCount g < rcx.toNat) (copied : 512 * e.sectorCount g < 0x10000)
    (counted : 512 * e.sectorCount g < 512 * sectorsAsked rcx) :
    512 * sectorsRead rcx ≤ 512 * e.sectorCount g + 1 := by
  by_contra more
  have small := rcx.isLt
  have hb := Geometry.before_ne_zero e.start
  have far := g.far e.start
  -- two disks that differ behind the file only
  let s := soleEntry g e (Geometry.before e.start) fun _ _ => 0
  let s' := soleEntry g e (Geometry.before e.start) fun lba _ =>
    if (lba - g.lba e.start).toNat < e.sectorCount g then 0 else 1
  have geo : s.geometry = g := rfl
  have geo' : s'.geometry = g := rfl
  have offset (k : Nat) (hk : k ≤ e.sectorCount g) :
      (g.lba e.start + BitVec.ofNat 64 k - g.lba e.start).toNat = k := by
    have eq : g.lba e.start + BitVec.ofNat 64 k - g.lba e.start = BitVec.ofNat 64 k := by grind
    rw [eq]
    exact Nat.mod_eq_of_lt (by omega)
  have apart (k : Nat) (hk : k ≤ e.sectorCount g) :
      g.lba e.start + BitVec.ofNat 64 k ≠ g.lba (Geometry.before e.start) := fun eq => by
    have := offset k hk
    rw [eq] at this
    omega
  have zero (k : Nat) (hk : k ≤ e.sectorCount g) (i : Nat) :
      s.sectors (g.lba e.start + BitVec.ofNat 64 k) i = 0 :=
    congrFun (soleEntry_sectors (apart k hk)) i
  have other (k : Nat) (hk : k ≤ e.sectorCount g) (i : Nat) :
      s'.sectors (g.lba e.start + BitVec.ofNat 64 k) i = if k < e.sectorCount g then 0 else 1 := by
    refine (congrFun (soleEntry_sectors (apart k hk)) i).trans ?_
    rw [offset k hk]
  have same : SameSectors g e s s' := fun k hk i _ => by
    rw [blockToLBA_eq geo', blockToLBA_eq geo, zero k (by omega), other k (by omega), if_pos hk]
  have names : s.Names plainEnv (openedOn 1).gemfsIndex e := soleEntry_names plainEnv_pos hb
  have names' : s'.Names plainEnv (openedOn 1).gemfsIndex e := soleEntry_names plainEnv_pos hb
  obtain ⟨y, given, run⟩ := @handleRead_done _ plainEnv _ rcx e (fun _ => 0) ⟨s, fun _ => 0⟩
    rfl names
  obtain ⟨y', given', run'⟩ := @handleRead_done _ plainEnv _ rcx e (fun _ => 0) ⟨s', fun _ => 1⟩
    rfl names'
  have equal := congrFun (only _ _ _ _ _ _ _ _ _ rfl geo geo' names names' same run run')
    (512 * e.sectorCount g)
  have inside : 512 * e.sectorCount g < 512 * sectorsAsked rcx ∧ 512 * e.sectorCount g < 0x10000 :=
    ⟨counted, copied⟩
  have read := Nat.not_le.mp more
  rw [given_eq lossy rfl geo names file run asked, given_eq lossy rfl geo' names' file run' asked,
    if_pos inside, if_pos inside, if_pos read, if_pos read,
    Nat.mul_div_cancel_left _ (by decide)] at equal
  dsimp only at equal
  rw [zero _ (Nat.le_refl _), other _ (Nat.le_refl _), if_neg (Nat.lt_irrefl _)] at equal
  cases equal

/-- Past 64 KiB the buffer shows, of which the driver never copies more. -/
theorem RevealsOnlyFile.short (only : RevealsOnlyFile g e rcx) (file : e.isDirectory = false) :
    rcx.toNat ≤ 0x10000 := by
  by_contra long
  let s := soleEntry g e 1 fun _ _ => 0
  have names : s.Names plainEnv (openedOn 1).gemfsIndex e := soleEntry_names plainEnv_pos (by decide)
  obtain ⟨y, given, run⟩ := @handleRead_done _ plainEnv _ rcx e (fun _ => 0) ⟨s, fun _ => 0⟩
    rfl names
  obtain ⟨y', given', run'⟩ := @handleRead_done _ plainEnv _ rcx e (fun _ => 0) ⟨s, fun _ => 1⟩
    rfl names
  have same : SameSectors g e s s := fun _ _ _ _ => rfl
  have equal := congrFun (only _ _ _ _ _ _ _ _ _ rfl rfl rfl names names same run run') 0x10000
  rw [given_eq lossy rfl rfl names file run (by omega),
    given_eq lossy rfl rfl names file run' (by omega), if_neg fun both => Nat.lt_irrefl _ both.2,
    if_neg fun both => Nat.lt_irrefl _ both.2] at equal
  cases equal

end Driver

end ChudOS.GemFS
