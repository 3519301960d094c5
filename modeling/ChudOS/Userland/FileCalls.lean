import ChudOS.Devices.Floppy
import ChudOS.Filesys.Volume

/-!
# The system calls on files

`WRITE`, `READ` and `GETDENTS` of `handle_syscall` for a descriptor of a file, on the partition
`F0/1`. The first two go through `bounce_buffer`, which all tasks share. The caller's buffer is the
memory from `rbx` on.
-/

namespace ChudOS.GemFS

/-- The disk, and the memory of the kernel from `bounce_buffer` on. Its first 4096 bytes are the
buffer, and other variables follow them. -/
structure Transfer where
  volume : Volume
  bounce : Nat → U8

variable [SectorAccess] (env : Env)

/-- `WRITE` to anything but the standard output. -/
def handleWrite (descriptor : FileDescriptor) (rcx : U64) (buffer : Nat → U8) (x : Transfer) :
    Except Stop Transfer := do
  let bounce := copyBytes buffer rcx.toNat x.bounce
  let volume ← writeFile env bounce descriptor.gemfsIndex x.volume
  return ⟨volume, bounce⟩

/-- `READ` from anything but the standard input, and the caller's buffer after it. -/
def handleRead (descriptor : FileDescriptor) (rcx : U64) (buffer : Nat → U8) (x : Transfer) :
    Except Stop (Transfer × (Nat → U8)) :=
  if descriptor.used then do
    let (volume, bounce) ← readFile env descriptor.gemfsIndex x.bounce (rcx / 512 + 1) x.volume
    return (⟨volume, bounce⟩, copyBytes bounce rcx.toNat buffer)
  else .ok (x, buffer)

/-! ## Directory entries -/

/-- `struct dent`, of 144 bytes. -/
structure Dent where
  name : Fin 128 → U8
  nameLen : U64
  flags : U8

/-- The dent with number `k` of an array. -/
def dentAt (buffer : Nat → U8) (k : Nat) : Dent where
  name i := buffer (144 * k + i)
  nameLen := field buffer (144 * k + 128) 8
  flags := buffer (144 * k + 136)

/-- The bytes up to the terminator, which counts; without one the scan leaves the name. -/
def scanName (e : Entry) : Except Stop U64 :=
  match (List.finRange 128).find? fun i => e.name i = 0 with
  | some i => .ok (BitVec.ofNat 64 (i.val + 1))
  | none => .error .overrun

def dentOf (e : Entry) : Except Stop Dent := do
  let nameLen ← scanName e
  return ⟨e.name, nameLen, e.flags⟩

/-- The loop of `GETDENTS`. Its `memcpy` has the local `cur_dent` as destination and the caller's
array as source. -/
def getdentsFrom (rcx : U64) (buffer : Nat → U8) :
    Nat → Nat → Dent → Entry → Volume → Except Stop (Volume × U64 × Dent)
  | 0, _, _, _, _ => .error .outOfFuel
  | n + 1, i, dent, e, s =>
    if i < rcx.toNat ∧ e.siblingIndex ≠ 0 then do
      let (s, e) ← readEntry env e.siblingIndex s
      let _ ← dentOf e
      getdentsFrom rcx buffer n (i + 1) (dentAt buffer i) e s
    else .ok (s, BitVec.ofNat 64 i, dent)

/-- `GETDENTS`: the disk, the caller's array and its `rax`. The entry that is read first has the
number of the descriptor as its index. -/
def handleGetdents (descriptors : Nat → FileDescriptor) (rdx rcx rax : U64) (buffer : Nat → U8)
    (dent : Dent) (s : Volume) : Except Stop (Volume × (Nat → U8) × U64) :=
  if (descriptors rdx.toNat).used then do
    let (s, e) ← readEntry env rdx s
    let (s, i, _) ← getdentsFrom env rcx buffer env.fuel 0 dent e s
    return (s, buffer, i)
  else .ok (s, buffer, rax)

end ChudOS.GemFS
