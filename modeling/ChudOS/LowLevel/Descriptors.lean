import ChudOS.Library.BitFields
import ChudOS.LowLevel.VirtualMemory
import Mathlib.Tactic.IntervalCases

/-!
# Segment descriptors

`SetGDTEntry` and `SetGDTSystemEntry` of `GDT.c`, and the layout in which the processor reads what
they write. Both set the same fields, and a system descriptor's base has an upper half besides. The
field for the limit has 16 bits, of which 8 are written.
-/

namespace ChudOS.GDT

open BitFields

/-- `struct GDT_Entry`. -/
structure Entry where
  limit : U16
  base0 : U16
  base1 : U8
  access : U8
  flagsLimits : U8
  base2 : U8

/-- `struct TSS_GDT`. -/
structure TSSEntry extends Entry where
  base3 : U32
  reserved : U32

def lowByte (x : U16) : U8 := x.setWidth 8

def highByte (x : U16) : U8 := (x >>> 8).setWidth 8

def Entry.bytes (e : Entry) : List U8 :=
  [lowByte e.limit, highByte e.limit, lowByte e.base0, highByte e.base0, e.base1, e.access,
    e.flagsLimits, e.base2]

def TSSEntry.bytes (e : TSSEntry) : List U8 :=
  e.toEntry.bytes ++ (List.range 4).map (byteOf (e.base3.setWidth 64)) ++
    (List.range 4).map (byteOf (e.reserved.setWidth 64))

/-- `Main_GDT` after a structure was written at an offset. -/
def store (gdt : Nat → U8) (offset : Nat) (bs : List U8) (i : Nat) : U8 :=
  if offset ≤ i ∧ i < offset + bs.length then bs.getD (i - offset) 0 else gdt i

/-- The fields that both functions set, for a base of either width. -/
def fields {w : Nat} (base : BitVec w) (limit : U32) (flags access : U8) : Entry where
  base0 := (base &&& 0xffff).setWidth 16
  base1 := (base >>> 16 &&& 0xff).setWidth 8
  base2 := (base >>> 24 &&& 0xff).setWidth 8
  access := access
  flagsLimits := (flags.setWidth 32 <<< 4 ||| (limit >>> 16 &&& 0xf)).setWidth 8
  limit := (limit &&& 0xff).setWidth 16

def setGDTEntry (base limit : U32) (flags access : U8) (offset : U16) (gdt : Nat → U8) : Nat → U8 :=
  store gdt offset.toNat (fields base limit flags access).bytes

def setGDTSystemEntry (base : U64) (limit : U32) (flags access : U8) (offset : U16)
    (gdt : Nat → U8) : Nat → U8 :=
  let entry : TSSEntry := { fields base limit flags access with
    base3 := (base >>> 32 &&& 0xffffffff).setWidth 32
    reserved := 0 }
  store gdt offset.toNat entry.bytes

/-! ## The processor's view -/

structure Descriptor where
  base : U64
  limit : U32
  flags : U8
  access : U8
  deriving DecidableEq

/-- A descriptor whose base has the bytes of the given numbers. -/
def decode (gdt : Nat → U8) (offset : Nat) (base : List Nat) : Descriptor :=
  let byte (k : Nat) := gdt (offset + k)
  { base := wordOfBytes (base.map byte)
    limit := (wordOfBytes [byte 0, byte 1, byte 6 &&& 0xf]).setWidth 32
    flags := byte 6 >>> 4
    access := byte 5 }

def decodeSegment (gdt : Nat → U8) (offset : Nat) : Descriptor := decode gdt offset [2, 3, 4, 7]

def decodeSystem (gdt : Nat → U8) (offset : Nat) : Descriptor :=
  decode gdt offset [2, 3, 4, 7, 8, 9, 10, 11]

variable {w : Nat} {base : U64} {limit : U32} {flags access : U8} {gdt : Nat → U8} {o i k : Nat}
  {bs : List U8}

/-! ## Bytes -/

theorem store_inside (lt : k < bs.length) : store gdt o bs (o + k) = bs.getD k 0 := by
  rw [store, if_pos ⟨Nat.le_add_right .., Nat.add_lt_add_left lt o⟩, Nat.add_sub_cancel_left]

theorem store_outside (out : ¬ (o ≤ i ∧ i < o + bs.length)) : store gdt o bs i = gdt i := if_neg out

theorem highByte_setWidth (x : BitVec w) : highByte (x.setWidth 16) = (x >>> 8).setWidth 8 := by
  apply BitVec.eq_of_getLsbD_eq
  intro i hi
  simp only [highByte, BitVec.getLsbD_setWidth, BitVec.getLsbD_ushiftRight]
  grind

/-- A byte of a word under a mask that covers it. -/
theorem setWidth_ushiftRight_and_ones (x : BitVec w) {m : Nat} (le : k + 8 ≤ m) :
    ((x &&& BitVec.ofNat w (2 ^ m - 1)) >>> k).setWidth 8 = (x >>> k).setWidth 8 := by
  apply BitVec.eq_of_getLsbD_eq
  intro j hj
  have inside : k + j < m := by omega
  rw [BitVec.getLsbD_setWidth, BitVec.getLsbD_setWidth, BitVec.getLsbD_ushiftRight,
    BitVec.getLsbD_ushiftRight, getLsbD_and_ones, decide_eq_true inside, Bool.true_and]

/-- The fields, byte by byte. -/
theorem bytes_fields (base : BitVec w) : (fields base limit flags access).bytes =
    [limit.setWidth 8, 0, base.setWidth 8, (base >>> 8).setWidth 8, (base >>> 16).setWidth 8,
      access, (flags.setWidth 32 <<< 4 ||| (limit >>> 16 &&& 0xf)).setWidth 8,
      (base >>> 24).setWidth 8] := by
  have ones₈ (v : Nat) : (0xff : BitVec v) = BitVec.ofNat v (2 ^ 8 - 1) := rfl
  have ones₁₆ : (0xffff : BitVec w) = BitVec.ofNat w (2 ^ 16 - 1) := rfl
  have limit₀ : lowByte ((limit &&& 0xff).setWidth 16) = limit.setWidth 8 := by
    rw [lowByte, BitVec.setWidth_setWidth_of_le _ (by decide), ones₈,
      setWidth_and_ones _ (Nat.le_refl 8)]
  have limit₁ : highByte ((limit &&& 0xff).setWidth 16) = 0 := by
    rw [highByte_setWidth, ones₈]
    apply BitVec.eq_of_getLsbD_eq
    intro j hj
    have beyond : ¬ 8 + j < 8 := by omega
    rw [BitVec.getLsbD_setWidth, BitVec.getLsbD_ushiftRight, getLsbD_and_ones,
      decide_eq_false beyond, Bool.false_and, Bool.and_false]
    exact BitVec.getLsbD_zero.symm
  have base₀ : lowByte ((base &&& 0xffff).setWidth 16) = base.setWidth 8 := by
    rw [lowByte, BitVec.setWidth_setWidth_of_le _ (by decide), ones₁₆,
      setWidth_and_ones _ (by decide)]
  have base₁ : highByte ((base &&& 0xffff).setWidth 16) = (base >>> 8).setWidth 8 := by
    rw [highByte_setWidth, ones₁₆, setWidth_ushiftRight_and_ones _ (by decide)]
  have byte (k : Nat) : (base >>> k &&& 0xff).setWidth 8 = (base >>> k).setWidth 8 := by
    rw [ones₈, setWidth_and_ones _ (Nat.le_refl 8)]
  simp only [Entry.bytes, fields, limit₀, limit₁, base₀, base₁, byte]

/-! ## What is decoded -/

/-- The flags lie above the upper bits of the limit. -/
theorem getLsbD_flagsLimits (flags : U8) (limit : U32) (hi : i < 8) :
    ((flags.setWidth 32 <<< 4 ||| (limit >>> 16 &&& 0xf)).setWidth 8).getLsbD i =
      if i < 4 then limit.getLsbD (16 + i) else flags.getLsbD (i - 4) := by
  have ones : (0xf : U32) = BitVec.ofNat 32 (2 ^ 4 - 1) := rfl
  rw [ones]
  simp only [BitVec.getLsbD_setWidth, BitVec.getLsbD_or, BitVec.getLsbD_shiftLeft,
    getLsbD_and_ones, BitVec.getLsbD_ushiftRight]
  grind

/-- Bit by bit, a word from its bytes. -/
theorem getLsbD_of_bytes {n : Nat} (hi : i < 8 * n) (small : n ≤ 8) (bit : Nat → Bool)
    (bytes : ∀ k < n, ∀ j < 8, (bs.getD k 0).getLsbD j = bit (8 * k + j)) :
    (wordOfBytes bs).getLsbD i = bit i := by
  rw [wordOfBytes_getLsbD _ _ (by omega), bytes (i / 8) (by omega) (i % 8) (by omega),
    Nat.div_add_mod]

/-- The limit that is decoded lacks its second byte. -/
theorem getLsbD_limit (flags : U8) (fits : limit.toNat < 2 ^ 20) (hi : i < 32) :
    ((wordOfBytes [limit.setWidth 8, 0,
      (flags.setWidth 32 <<< 4 ||| (limit >>> 16 &&& 0xf)).setWidth 8 &&& 0xf]).setWidth 32).getLsbD
        i = (limit.getLsbD i && !decide (8 ≤ i ∧ i < 16)) := by
  have ones : (0xf : U8) = BitVec.ofNat 8 (2 ^ 4 - 1) := rfl
  have high (j : Nat) (ge : 20 ≤ j) : limit.getLsbD j = false :=
    Nat.testBit_lt_two_pow (Nat.lt_of_lt_of_le fits (Nat.pow_le_pow_right (by decide) ge))
  rw [BitVec.getLsbD_setWidth, decide_eq_true hi, Bool.true_and]
  refine getLsbD_of_bytes (n := 4) hi (by decide)
    (fun i => limit.getLsbD i && !decide (8 ≤ i ∧ i < 16)) fun k hk j hj => ?_
  have top := getLsbD_flagsLimits flags limit hj
  interval_cases k
  · simp [hj]
  · simp [hj, show 8 ≤ 8 + j by omega, show 8 + j < 16 by omega]
  · change BitVec.getLsbD (_ &&& 0xf) j = _
    rw [ones, getLsbD_and_ones, top]
    by_cases low : j < 4
    · simp [low]
    · simp [low, high (8 * 2 + j) (by omega)]
  · simp [high (8 * 3 + j) (by omega)]

theorem limit_decoded (flags : U8) (fits : limit.toNat < 2 ^ 20) :
    (wordOfBytes [limit.setWidth 8, 0,
      (flags.setWidth 32 <<< 4 ||| (limit >>> 16 &&& 0xf)).setWidth 8 &&& 0xf]).setWidth 32 =
        limit ↔ limit &&& 0xff00 = 0 := by
  have mask : ∀ i < 32, (0xff00 : U32).getLsbD i = decide (8 ≤ i ∧ i < 16) := by decide
  constructor
  · intro same
    apply BitVec.eq_of_getLsbD_eq
    intro i hi
    have bit := getLsbD_limit flags fits hi
    rw [same] at bit
    rw [BitVec.getLsbD_and, mask i hi]
    by_cases second : 8 ≤ i ∧ i < 16
    · rw [decide_eq_true second] at bit ⊢
      rw [bit]
      simp
    · rw [decide_eq_false second]
      simp
  · intro clear
    apply BitVec.eq_of_getLsbD_eq
    intro i hi
    have bit : (limit &&& 0xff00).getLsbD i = false := by
      rw [clear]
      exact BitVec.getLsbD_zero
    rw [BitVec.getLsbD_and, mask i hi] at bit
    rw [getLsbD_limit flags fits hi]
    by_cases second : 8 ≤ i ∧ i < 16
    · rw [decide_eq_true second, Bool.and_true] at bit
      rw [bit]
      rfl
    · rw [decide_eq_false second]
      simp

theorem flags_decoded (four : flags.toNat < 2 ^ 4) :
    (flags.setWidth 32 <<< 4 ||| (limit >>> 16 &&& 0xf)).setWidth 8 >>> 4 = flags := by
  apply BitVec.eq_of_getLsbD_eq
  intro i hi
  rw [BitVec.getLsbD_ushiftRight]
  by_cases low : 4 + i < 8
  · rw [getLsbD_flagsLimits _ _ low, if_neg (by omega), Nat.add_sub_cancel_left]
  · rw [BitVec.getLsbD_of_ge _ _ (by omega)]
    exact (Nat.testBit_lt_two_pow
      (Nat.lt_of_lt_of_le four (Nat.pow_le_pow_right (by decide) (by omega)))).symm

theorem base_decoded (base : U32) :
    wordOfBytes [base.setWidth 8, (base >>> 8).setWidth 8, (base >>> 16).setWidth 8,
      (base >>> 24).setWidth 8] = base.setWidth 64 := by
  apply BitVec.eq_of_getLsbD_eq
  intro i hi
  refine getLsbD_of_bytes (n := 8) hi (by decide) (base.setWidth 64).getLsbD fun k hk j hj => ?_
  have above (l : Nat) (ge : 32 ≤ l) : base.getLsbD l = false := BitVec.getLsbD_of_ge base l ge
  interval_cases k <;> simp [hj] <;> grind

/-- The upper half of the base comes behind its other bytes. -/
theorem base_decoded_system (base : U64) :
    wordOfBytes ([base.setWidth 8, (base >>> 8).setWidth 8, (base >>> 16).setWidth 8,
      (base >>> 24).setWidth 8] ++ (List.range 4).map
        (byteOf (((base >>> 32 &&& 0xffffffff).setWidth 32).setWidth 64))) = base := by
  have ones : (0xffffffff : U64) = BitVec.ofNat 64 (2 ^ 32 - 1) := rfl
  rw [ones, setWidth_and_ones _ (Nat.le_refl 32)]
  apply BitVec.eq_of_getLsbD_eq
  intro i hi
  refine getLsbD_of_bytes (n := 8) hi (by decide) base.getLsbD fun k hk j hj => ?_
  interval_cases k <;> simp [hj, byteOf] <;> grind

/-! ## Both functions -/

/-- Of a descriptor that begins with the fields, all is decoded but the second byte of the limit, if
the base is. -/
theorem decode_fields (base : BitVec w) (decoded : List Nat) (rest : List U8) {value : U64}
    (fits : limit.toNat < 2 ^ 20) (four : flags.toNat < 2 ^ 4)
    (whole : wordOfBytes (decoded.map fun k =>
      store gdt o ((fields base limit flags access).bytes ++ rest) (o + k)) = value) :
    decode (store gdt o ((fields base limit flags access).bytes ++ rest)) o decoded =
      ⟨value, limit, flags, access⟩ ↔ limit &&& 0xff00 = 0 := by
  have byte (k : Nat) (lt : k < 8) :
      store gdt o ((fields base limit flags access).bytes ++ rest) (o + k) =
        (fields base limit flags access).bytes.getD k 0 := by
    have length : (fields base limit flags access).bytes.length = 8 := rfl
    rw [store_inside (by rw [List.length_append]; omega), List.getD_append _ _ _ _ (by omega)]
  rw [← limit_decoded flags fits, decode]
  dsimp only
  rw [whole, byte 0 (by decide), byte 1 (by decide), byte 5 (by decide), byte 6 (by decide),
    bytes_fields]
  simp only [List.getD_cons_zero, List.getD_cons_succ, Descriptor.mk.injEq, flags_decoded four,
    true_and, and_true]

/--
What is decoded is what was encoded, and the table is the same outside the descriptor, if and only if
the second byte of the limit is zero.
-/
theorem descriptor_lossless_iff (base₃₂ : U32) (base₆₄ : U64) (limit : U32) (flags access : U8)
    (offset : U16) (gdt : Nat → U8) (fits : limit.toNat < 2 ^ 20) (four : flags.toNat < 2 ^ 4) :
    ((decodeSegment (setGDTEntry base₃₂ limit flags access offset gdt) offset.toNat =
        ⟨base₃₂.setWidth 64, limit, flags, access⟩ ∧
      ∀ i, ¬ (offset.toNat ≤ i ∧ i < offset.toNat + 8) →
        setGDTEntry base₃₂ limit flags access offset gdt i = gdt i) ↔ limit &&& 0xff00 = 0) ∧
    ((decodeSystem (setGDTSystemEntry base₆₄ limit flags access offset gdt) offset.toNat =
        ⟨base₆₄, limit, flags, access⟩ ∧
      ∀ i, ¬ (offset.toNat ≤ i ∧ i < offset.toNat + 16) →
        setGDTSystemEntry base₆₄ limit flags access offset gdt i = gdt i) ↔
          limit &&& 0xff00 = 0) := by
  constructor
  · have frame : ∀ i, ¬ (offset.toNat ≤ i ∧ i < offset.toNat + 8) →
        setGDTEntry base₃₂ limit flags access offset gdt i = gdt i :=
      fun i out => store_outside out
    rw [and_iff_left frame]
    have byte (k : Nat) (lt : k < 8) := @store_inside gdt offset.toNat k
      (fields base₃₂ limit flags access).bytes lt
    have decoded := @decode_fields 32 limit flags access gdt offset.toNat base₃₂ [2, 3, 4, 7] []
      (base₃₂.setWidth 64) fits four ?_
    · rw [List.append_nil] at decoded
      exact decoded
    · rw [List.append_nil, ← base_decoded]
      simp only [List.map_cons, List.map_nil]
      rw [byte 2 (by decide), byte 3 (by decide), byte 4 (by decide), byte 7 (by decide),
        bytes_fields]
      rfl
  · have frame : ∀ i, ¬ (offset.toNat ≤ i ∧ i < offset.toNat + 16) →
        setGDTSystemEntry base₆₄ limit flags access offset gdt i = gdt i :=
      fun i out => store_outside out
    rw [and_iff_left frame]
    let upper : List U8 := (List.range 4).map
      (byteOf (((base₆₄ >>> 32 &&& 0xffffffff).setWidth 32).setWidth 64))
    let reserved : List U8 := (List.range 4).map (byteOf ((0 : U32).setWidth 64))
    have byte (k : Nat) (lt : k < 16) := @store_inside gdt offset.toNat k
      ((fields base₆₄ limit flags access).bytes ++ (upper ++ reserved)) lt
    have decoded := @decode_fields 64 limit flags access gdt offset.toNat base₆₄
      [2, 3, 4, 7, 8, 9, 10, 11] (upper ++ reserved) base₆₄ fits four ?_
    · rw [← List.append_assoc] at decoded
      exact decoded
    · refine Eq.trans ?_ (base_decoded_system base₆₄)
      simp only [List.map_cons, List.map_nil]
      rw [byte 2 (by decide), byte 3 (by decide), byte 4 (by decide), byte 7 (by decide),
        byte 8 (by decide), byte 9 (by decide), byte 10 (by decide), byte 11 (by decide),
        bytes_fields]
      rfl

theorem descriptor_lossless_byte : decodeSegment (setGDTEntry 0x12345678 0xf0042 0xc 0x9a 8
    fun _ => 0) (8 : U16).toNat = ⟨0x12345678, 0xf0042, 0xc, 0x9a⟩ :=
  ((descriptor_lossless_iff 0x12345678 0 0xf0042 0xc 0x9a 8 (fun _ => 0) (by decide)
    (by decide)).1.mpr (by decide)).1

/-- A limit of 256 is encoded as 0. -/
theorem descriptor_loses_limit :
    decodeSegment (setGDTEntry 0 0x100 2 0x9a 8 fun _ => 0) 8 = ⟨0, 0, 2, 0x9a⟩ ∧
      decodeSystem (setGDTSystemEntry 0 0x100 0 0x89 40 fun _ => 0) 40 = ⟨0, 0, 0, 0x89⟩ := by
  decide

end ChudOS.GDT
