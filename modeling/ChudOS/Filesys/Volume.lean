import ChudOS.Filesys.Entry
import Mathlib.Logic.Function.Basic

/-!
# GemFS

The functions of `gemfs.c` on one partition, `F0/1`: it is the partition that the system calls use,
and `GemFS_mkdir` names it in the middle of its work. Sector input and output is a parameter: it is
exact, or what the floppy driver makes of it. An entry takes the first 184 bytes of a sector, which
the driver moves too, so that entries are read and written with their sectors.

What the C code leaves to chance, the search for a free block, and a bound on its loops and on the
depth of its mutual recursion are the fields of an `Env`.
-/

namespace ChudOS.GemFS

/-- Why a call does not return: a bound was too small, the CPU divides by zero, an array is left, or
the search for a block gives up. -/
inductive Stop
  | outOfFuel
  | divideError
  | overrun
  | noBlock
  deriving DecidableEq

structure Volume where
  /-- The sectors of the drive, by LBA. -/
  sectors : U64 → Sector
  lbaStart : U32
  sectorCount : U32
  /-- `Main_Entries[1]`, the copy of the main entry in memory. -/
  main : Main
  /-- What `GemFS_WriteEntry` stored last under an index. No function reads this. -/
  written : U64 → Entry

structure Env where
  findFreeBlock : Volume → Except Stop U64
  /-- The local `Entry` of `GemFS_CreateEntry` before its fields are set. -/
  rawEntry : Volume → Entry
  /-- What `Entry_Buffer` holds after the main entry that is copied into it. -/
  rawBuffer : Volume → Sector
  fuel : Nat

/-! ## Blocks -/

def blockSize (s : Volume) : U64 := s.main.blockSize.setWidth 64

def blockToLBA (s : Volume) (block : U64) : U64 :=
  block * (if blockSize s = 0 then 1 else blockSize s) + s.lbaStart.setWidth 64

def lbaToBlock (s : Volume) (lba : U64) : U64 :=
  (lba - s.lbaStart.setWidth 64) / (if blockSize s = 0 then 1 else blockSize s)

namespace Volume

def block (s : Volume) (b : U64) : Sector := s.sectors (blockToLBA s b)

def putBlock (s : Volume) (b : U64) (x : Sector) : Volume :=
  { s with sectors := Function.update s.sectors (blockToLBA s b) x }

def entryIn (s : Volume) (b : U64) : Entry := entryOf (s.block b) 0

end Volume

/-! ## Sectors -/

/-- Sector input and output, exact or the floppy driver's. -/
class SectorAccess where
  lossless : Bool

/-- Exact input and output. -/
abbrev SectorAccess.ideal : SectorAccess := ⟨true⟩

/-- What the floppy driver does. -/
abbrev SectorAccess.driver : SectorAccess := ⟨false⟩

variable [SectorAccess]

/-- How many sectors a transfer moves. All commands of the driver begin at the first sector, and
above 64 KiB each moves what the whole transfer is over a multiple of 64 KiB. -/
def sectorsMoved (count : U16) : Nat :=
  if SectorAccess.lossless then count.toNat
  else if count.toNat % 128 = 0 then 128 else count.toNat % 128

/-- `FLOPPY_Write_LBA`, whose sector count has 16 bits. With a count of 0 the driver writes its
cleared bounce buffer. -/
def putSectors (s : Volume) (lba : U64) (buffer : Nat → U8) (count : U16) : Volume :=
  { s with sectors := fun l =>
      if (l - lba).toNat < sectorsMoved count then
        fun i => if count = 0 then 0 else buffer (512 * (l - lba).toNat + i)
      else s.sectors l }

/-- `FLOPPY_Read_LBA` into a buffer. The driver copies at most 64 KiB of its bounce buffer, in which
the last byte of what a command should move is missing. -/
def getSectors (s : Volume) (lba : U64) (buffer : Nat → U8) (count : U16) (i : Nat) : U8 :=
  if i < 512 * count.toNat ∧ (SectorAccess.lossless ∨ i < 0x10000) then
    if SectorAccess.lossless ∨ i + 1 < 512 * sectorsMoved count then
      s.sectors (lba + BitVec.ofNat 64 (i / 512)) (i % 512)
    else 0
  else buffer i

/-! ## The bitmap -/

/-- The first of the sectors of the bitmap that are read for a block. -/
def bitmapLBA (s : Volume) (b : U64) : U64 := blockToLBA s (b / (blockSize s * 512) + 4)

/-- `FBB_Block` after the sectors for a block were read. -/
def readBitmap (s : Volume) (b : U64) : Nat → U8 :=
  getSectors s (bitmapLBA s b) (fun _ => 0) s.main.blockSize

/-- `GemFS_FBB_GetBlock`, which is asked about blocks below 512 only. A byte past the sectors that
were read is one of the memory behind them, not of the disk. -/
def fbbGetBlock (s : Volume) (b : U64) : Bool :=
  let offset := (b / blockSize s).toNat
  decide (offset < 512 * (blockSize s).toNat) && (readBitmap s b offset).getLsbD (b.toNat % 8)

def setBit (x : Nat → U8) (k bit : Nat) : Nat → U8 := Function.update x k (x k ||| (1 : U8) <<< bit)

def fbbSetBlock (s : Volume) (b : U64) : Except Stop Volume :=
  if blockSize s = 0 then .error .divideError
  else
    .ok (putSectors s (bitmapLBA s b)
      (setBit (readBitmap s b) (b / blockSize s).toNat (b.toNat % 8)) s.main.blockSize)

/-- The first of the blocks below 512 that is not marked; else a number past the partition. -/
def findFreeBlock (s : Volume) : Except Stop U64 :=
  if blockSize s = 0 then .error .divideError
  else
    match (List.range 0x200).find? fun i => !fbbGetBlock s (BitVec.ofNat 64 i) with
    | some i => .ok (BitVec.ofNat 64 i)
    | none => .ok (s.sectorCount.setWidth 64 / blockSize s + 1)

/-! ## The chain of entries -/

def readMainEntry (s : Volume) : Volume × Main :=
  ({ s with main := mainOf (s.block 1) }, mainOf (s.block 1))

section Locate

/-! `locate` stands for `GemFS_GetEntryBlock` in the functions it is mutually recursive with. -/

variable (env : Env) (locate : U64 → Volume → Except Stop (Volume × U64))

def readEntryAt (index : U64) (s : Volume) : Except Stop (Volume × Entry) := do
  let (s, block) ← locate index s
  if index = 0 then
    return ((readMainEntry s).1, (readMainEntry s).2.entry)
  else
    return (s, s.entryIn block)

/-- The sector that `GemFS_WriteEntry` writes for the main entry, which it copies over the first 184
bytes of `Entry_Buffer`. -/
def mainSector (s : Volume) (m : Main) : Sector :=
  fun i => if i < 184 then mainByte m i else env.rawBuffer s i

def putMain (s : Volume) (m : Main) : Volume :=
  { s.putBlock 1 (mainSector env s m) with main := m }

def putEntry (s : Volume) (index block : U64) (e : Entry) : Volume :=
  let s := { s with written := Function.update s.written index e }
  if index = 0 then putMain env s { s.main with entry := e } else s.putBlock block (entryByte e)

def writeEntryAt (index : U64) (e : Entry) (s : Volume) : Except Stop Volume := do
  let (s, block) ← locate index s
  return putEntry env s index block e

def createEntryAt (index : U64) (flags : U8) (s : Volume) : Except Stop Volume := do
  let raw := env.rawEntry s
  let free ← env.findFreeBlock s
  let s ← fbbSetBlock s free
  let (s, last) ← readEntryAt locate (index - 1) s
  let s ← writeEntryAt env locate (index - 1) { last with nextIndexStart := free } s
  writeEntryAt env locate index { raw with index, flags, nextIndexStart := 0 } s

end Locate

/-- The loop of `GemFS_GetEntryBlock`, `n` rounds of it from round `i` on, where `create` makes an
entry at the end of the chain. -/
def enumerate (create : U64 → Volume → Except Stop Volume) :
    Nat → U64 → Volume → Entry → U64 → Except Stop (Volume × U64)
  | 0, _, s, _, last => .ok (s, last)
  | n + 1, i, s, e, last =>
    if e.nextIndexStart = 0 then do
      let s ← create i s
      let e := s.entryIn last
      enumerate create n (i + 1) s (s.entryIn e.nextIndexStart) e.nextIndexStart
    else enumerate create n (i + 1) s (s.entryIn e.nextIndexStart) e.nextIndexStart

/-- `GemFS_GetEntryBlock`, within a depth of recursion. -/
def getEntryBlockWithin (env : Env) : Nat → U64 → Volume → Except Stop (Volume × U64)
  | 0, _, _ => .error .outOfFuel
  | depth + 1, index, s =>
    if index = 0 then .ok (s, 1)
    else enumerate (fun i => createEntryAt env (getEntryBlockWithin env depth) i 0)
      ((index + 1).toNat - 1) 1 s s.main.entry s.main.entry.nextIndexStart

variable (env : Env)

def getEntryBlock : U64 → Volume → Except Stop (Volume × U64) := getEntryBlockWithin env env.fuel

def readEntry : U64 → Volume → Except Stop (Volume × Entry) := readEntryAt (getEntryBlock env)

def writeEntry : U64 → Entry → Volume → Except Stop Volume := writeEntryAt env (getEntryBlock env)

def findFreeEntryFrom : Nat → U64 → Volume → Entry → Except Stop (Volume × U64)
  | 0, _, _, _ => .error .outOfFuel
  | n + 1, i, s, e =>
    if e.inUse then do
      let (s, e) ← readEntry env i s
      findFreeEntryFrom n (i + 1) s e
    else .ok (s, i - 1)

def findFreeEntry (s : Volume) : Except Stop (Volume × U64) :=
  findFreeEntryFrom env env.fuel 1 s s.main.entry

/-! ## Directories and files -/

def lastSiblingFrom : Nat → Volume → Entry → Except Stop (Volume × Entry)
  | 0, _, _ => .error .outOfFuel
  | n + 1, s, e =>
    if e.siblingIndex = 0 then .ok (s, e)
    else do
      let (s, e) ← readEntry env e.siblingIndex s
      lastSiblingFrom n s e

/-- The scan of `GemFS_mkdir` through the children of a parent that has some. -/
def registerSibling (parent : Entry) (free : U64) (s : Volume) : Except Stop Volume :=
  if parent.start = 0 then .ok s
  else do
    let (s, e) ← readEntry env parent.start s
    let (s, e) ← lastSiblingFrom env env.fuel s e
    writeEntry env e.index { e with siblingIndex := free } s

structure CreateArgs where
  name : Nat → U8
  nameLen : U64
  flags : U8
  parentIndex : U64

/-- The entry that `GemFS_mkdir` writes. -/
def newDir (args : CreateArgs) (free : U64) : Entry :=
  { zeroEntry with
    flags := args.flags
    index := free
    parentIndex := args.parentIndex
    name := fun i => if i.val < args.nameLen.toNat then args.name i else 0 }

/-- `memcpy(&new_dir.Name, name, name_len)`: more than 128 bytes run past the end of the entry. -/
def copyName (args : CreateArgs) (free : U64) : Except Stop Entry :=
  if args.nameLen.toNat ≤ 128 then .ok (newDir args free) else .error .overrun

/-- What `GemFS_mkdir` does about a parent that is not a directory is to print a line. -/
def mkdir (args : CreateArgs) (s : Volume) : Except Stop (Volume × U64) := do
  let (s, free) ← findFreeEntry env s
  let freeBlock ← env.findFreeBlock s
  let s ← fbbSetBlock s freeBlock
  let (s, _) ← readEntry env free s
  let (s, parent) ← readEntry env args.parentIndex s
  let s ← registerSibling env parent free s
  let e ← copyName args free
  let s ← writeEntry env free e s
  let s ← writeEntry env args.parentIndex
    (if parent.start = 0 then { parent with start := free } else parent) s
  return (s, free)

/-- `GemFS_FBB_SetBlock` for `size` blocks from `first` on. -/
def setRange (size first : U64) (s : Volume) : Except Stop Volume :=
  (List.range size.toNat).foldlM (fun s i => fbbSetBlock s (BitVec.ofNat 64 i + first)) s

def createFile (args : CreateArgs) (size : U64) (s : Volume) : Except Stop (Volume × U64) := do
  let freeBlock ← env.findFreeBlock s
  let s ← setRange size freeBlock s
  let (s, free) ← findFreeEntry env s
  let (s, _) ← mkdir env args s
  let (s, e) ← readEntry env free s
  let s ← writeEntry env free { e with start := freeBlock, size := size } s
  return (s, free)

def writeFile (buffer : Nat → U8) (index : U64) (s : Volume) : Except Stop Volume := do
  let (s, e) ← readEntry env index s
  if e.isDirectory then
    return s
  else
    writeEntry env index e
      (putSectors s (blockToLBA s e.start) buffer ((e.size * blockSize s).setWidth 16))

/-- The buffer after `GemFS_ReadFile`, which reads `blocks` sectors, but no directory. -/
def readFile (index : U64) (buffer : Nat → U8) (blocks : U64) (s : Volume) :
    Except Stop (Volume × (Nat → U8)) := do
  let (s, e) ← readEntry env index s
  if e.isDirectory then
    return (s, buffer)
  else
    return (s, getSectors s (blockToLBA s e.start) buffer (blocks.setWidth 16))

/-! ## Formatting -/

/-- A C string as a buffer. -/
def cString (text : String) (i : Nat) : U8 :=
  BitVec.ofNat 8 ((text.toList.getD i (Char.ofNat 0)).toNat)

def formattedMain : Main where
  check i := cString "GEMH" i
  blockSize := 1
  entry := { zeroEntry with flags := 0b00010111, name := fun i => cString "ROOT" i }

/-- `GemFS_CreateFile` for one of the three programs, and its relocation to a fixed LBA. -/
def createProgram (args : CreateArgs) (lba : U64) (s : Volume) : Except Stop Volume := do
  let (s, index) ← createFile env args 9 s
  let (s, e) ← readEntry env index s
  writeEntry env index { e with start := lbaToBlock s lba } s

/-- The main entry, in memory and in block 1, and an empty block 2. -/
def writeHeader (s : Volume) : Volume :=
  let s := { s with main := formattedMain }
  (s.putBlock 1 (mainByte formattedMain)).putBlock 2 fun _ => 0

/-- `GemFS_FormatPartition`, where `bootMsg` is the text built from the version numbers. -/
def formatPartition (bootMsg : Nat → U8) (s : Volume) : Except Stop Volume := do
  let s ← (List.range 6).foldlM (fun s i => fbbSetBlock s (BitVec.ofNat 64 i)) (writeHeader s)
  let (s, _) ← mkdir env ⟨cString "dev", 4, 0b00010111, 0⟩ s
  let (s, _) ← mkdir env ⟨cString "zero", 5, 0b00010111, 1⟩ s
  let (s, _) ← mkdir env ⟨cString "urand", 6, 0b00010111, 1⟩ s
  let (s, etc) ← mkdir env ⟨cString "etc", 4, 0b00010111, 0⟩ s
  let (s, bin) ← mkdir env ⟨cString "bin", 4, 0b00010111, 0⟩ s
  let s ← createProgram env ⟨cString "shell.elf", 9, 0b00001111, bin⟩ 1500 s
  let s ← createProgram env ⟨cString "hello_world.elf", 15, 0b00001111, bin⟩ 1600 s
  let s ← createProgram env ⟨cString "chudedit.elf", 12, 0b00001111, bin⟩ 1800 s
  let (s, index) ← createFile env ⟨cString "boot_msg.txt", 13, 0b00001111, etc⟩ 1 s
  writeFile env bootMsg index s

/-! ## The two searches -/

/-- The file system as the kernel runs it. -/
def Env.kernel (rawEntry : Volume → Entry) (rawBuffer : Volume → Sector) (fuel : Nat) : Env :=
  ⟨GemFS.findFreeBlock, rawEntry, rawBuffer, fuel⟩

/-- The blocks below this number have a bit in block 4 that is kept. -/
def capacity : Nat := if SectorAccess.lossless then 512 else 511

/-- The search that gives up where the kernel's goes on with a number past the partition, or with a
block whose bit is not kept. A call goes through with it when a block with a bit of its own is free
whenever one is taken. -/
def findBlock (s : Volume) : Except Stop U64 := do
  let b ← findFreeBlock s
  if fbbGetBlock s b = false ∧ b.toNat < capacity then return b else .error .noBlock

/-- The same file system with a search that gives up. -/
def Env.strict (env : Env) : Env := { env with findFreeBlock := findBlock }

end ChudOS.GemFS
