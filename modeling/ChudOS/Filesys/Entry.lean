import ChudOS.LowLevel.VirtualMemory
import ChudOS.Userland.Tasks

/-!
# Entries of the file system

The packed structures of `gemfs.h` and their bytes in a sector. What is read back from a sector is
what was written to it.
-/

namespace ChudOS.GemFS

/-- The bytes of a sector, of which 512 count. -/
abbrev Sector := Nat → U8

/-- `struct GemFS_Entry`, of 178 bytes. -/
@[ext]
structure Entry where
  start : U64
  size : U64
  index : U64
  parentIndex : U64
  siblingIndex : U64
  nextIndexStart : U64
  flags : U8
  readingMask : U8
  name : Fin 128 → U8

/-- `struct GemFS_Main`, of 184 bytes. -/
@[ext]
structure Main where
  check : Fin 4 → U8
  blockSize : U16
  entry : Entry

def zeroEntry : Entry := ⟨0, 0, 0, 0, 0, 0, 0, 0, fun _ => 0⟩

namespace Entry

def inUse (e : Entry) : Bool := e.flags.getLsbD 0

def isDirectory (e : Entry) : Bool := e.flags.getLsbD 4

end Entry

/-! ## Bytes -/

/-- The entry in a sector, from the byte `offset` on. -/
def entryOf (b : Sector) (offset : Nat) : Entry where
  start := field b offset 8
  size := field b (offset + 8) 8
  index := field b (offset + 16) 8
  parentIndex := field b (offset + 24) 8
  siblingIndex := field b (offset + 32) 8
  nextIndexStart := field b (offset + 40) 8
  flags := b (offset + 48)
  readingMask := b (offset + 49)
  name i := b (offset + 50 + i)

/-- Byte `i` of an entry, in a buffer that holds zeros after it. -/
def entryByte (e : Entry) (i : Nat) : U8 :=
  if i < 8 then byteOf e.start i
  else if i < 16 then byteOf e.size (i - 8)
  else if i < 24 then byteOf e.index (i - 16)
  else if i < 32 then byteOf e.parentIndex (i - 24)
  else if i < 40 then byteOf e.siblingIndex (i - 32)
  else if i < 48 then byteOf e.nextIndexStart (i - 40)
  else if i = 48 then e.flags
  else if i = 49 then e.readingMask
  else if h : i - 50 < 128 then e.name ⟨i - 50, h⟩
  else 0

def mainOf (b : Sector) : Main where
  check i := b i
  blockSize := (field b 4 2).setWidth 16
  entry := entryOf b 6

def mainByte (m : Main) (i : Nat) : U8 :=
  if h : i < 4 then m.check ⟨i, h⟩
  else if i < 6 then byteOf (m.blockSize.setWidth 64) (i - 4)
  else entryByte m.entry (i - 6)

/-! ## Reading back -/

/-- A field holds the value whose bytes are in it. -/
theorem field_eq {b : Sector} {offset n : Nat} {x : U64} (fits : x.toNat < 2 ^ (8 * n))
    (h : ∀ k < n, b (offset + k) = byteOf x k) : field b offset n = x := by
  apply BitVec.eq_of_getLsbD_eq
  intro i hi
  rw [field, wordOfBytes_getLsbD _ _ hi]
  by_cases byte : i / 8 < n
  · simp [byte, h, byteOf, Nat.mod_lt, Nat.div_add_mod]
  · have above : x.getLsbD i = false :=
      Nat.testBit_lt_two_pow (Nat.lt_of_lt_of_le fits (Nat.pow_le_pow_right (by decide) (by omega)))
    simp [byte, above]

theorem entryOf_eq {b : Sector} {offset : Nat} {e : Entry}
    (h : ∀ i < 178, b (offset + i) = entryByte e i) : entryOf b offset = e := by
  have word (k : Nat) (x : U64) (hk : k ≤ 40)
      (bytes : ∀ j < 8, entryByte e (k + j) = byteOf x j) : field b (offset + k) 8 = x := by
    refine field_eq (by omega) fun j hj => ?_
    rw [Nat.add_assoc, h (k + j) (by omega), bytes j hj]
  ext1
  · exact word 0 _ (by omega) fun j hj => by simp [entryByte, hj]
  · exact word 8 _ (by omega) fun j hj => by grind [entryByte]
  · exact word 16 _ (by omega) fun j hj => by grind [entryByte]
  · exact word 24 _ (by omega) fun j hj => by grind [entryByte]
  · exact word 32 _ (by omega) fun j hj => by grind [entryByte]
  · exact word 40 _ (by omega) fun j hj => by grind [entryByte]
  · exact h 48 (by omega)
  · exact h 49 (by omega)
  · funext i
    calc b (offset + 50 + i) = entryByte e (50 + i) := by rw [Nat.add_assoc, h (50 + i) (by omega)]
      _ = e.name i := by grind [entryByte]

@[simp] theorem entryOf_entryByte (e : Entry) : entryOf (entryByte e) 0 = e :=
  entryOf_eq fun i _ => by rw [Nat.zero_add]

theorem field_congr {b c : Sector} {offset n : Nat} (h : ∀ i < offset + n, b i = c i) :
    field b offset n = field c offset n := by
  have bytes : (List.range n).map (fun k => b (offset + k)) =
      (List.range n).map fun k => c (offset + k) :=
    List.map_congr_left fun k hk => h _ (by have := List.mem_range.mp hk; omega)
  rw [field, field, bytes]

theorem entryOf_congr {b c : Sector} {offset : Nat} (h : ∀ i < offset + 178, b i = c i) :
    entryOf b offset = entryOf c offset := by
  have word (k : Nat) (hk : k ≤ 40) : field b (offset + k) 8 = field c (offset + k) 8 :=
    field_congr fun i hi => h i (by omega)
  ext1
  · exact word 0 (by decide)
  · exact word 8 (by decide)
  · exact word 16 (by decide)
  · exact word 24 (by decide)
  · exact word 32 (by decide)
  · exact word 40 (by decide)
  · exact h _ (by omega)
  · exact h _ (by omega)
  · funext i
    exact h _ (by omega)

theorem mainOf_congr {b c : Sector} (h : ∀ i < 184, b i = c i) : mainOf b = mainOf c := by
  have size : field b 4 2 = field c 4 2 := field_congr fun i hi => h i (by omega)
  ext1
  · funext i
    exact h i (by omega)
  · exact congrArg (BitVec.setWidth 16) size
  · exact entryOf_congr h

theorem mainOf_eq {b : Sector} {m : Main} (h : ∀ i < 184, b i = mainByte m i) : mainOf b = m := by
  ext1
  · funext i
    exact (h i (by omega)).trans (dif_pos i.isLt)
  · have size : field b 4 2 = m.blockSize.setWidth 64 := by
      refine field_eq (by simp; omega) fun k hk => ?_
      rw [h (4 + k) (by omega), mainByte, dif_neg (by omega), if_pos (by omega),
        Nat.add_sub_cancel_left]
    rw [mainOf, size]
    simp
  · refine entryOf_eq fun i hi => ?_
    rw [h (6 + i) (by omega), mainByte, dif_neg (by omega), if_neg (by omega),
      Nat.add_sub_cancel_left]

end ChudOS.GemFS
