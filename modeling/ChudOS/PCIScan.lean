import ChudOS.Devices.PCI
import Mathlib.Data.List.Induction
import Mathlib.Data.List.Nodup
import Mathlib.Tactic.IntervalCases

/-!
# What the PCI scan reports

The devices that the scan finds are those that are there. But the words behind the registers of a
header record, which are registers of the device itself, go over the common header in it; every
header type but 0 is taken for that of a bridge; and the header that a device does not have is the
one that was read last.

## Main definitions

* `Header0.ofRegisters`, `Header1.ofRegisters` — the members of a header by their registers.
* `Reports` — the devices found are those that are there, with their own headers.
* `Uniform` — all devices are of one kind, and repeat their first registers.
-/

namespace ChudOS.PCI

/-! ## The registers of a device -/

/-- The doubleword registers of a device. -/
def register (space : ConfigSpace) (bus slot : U8) (n : Nat) : U32 :=
  space bus (slot.setWidth 5) 0 (BitVec.ofNat 6 n)

section Registers

variable (r : Nat → U32)

/-- The registers at an offset in bytes. -/
def word (offset : Nat) : U16 := half (r (offset / 4)) (offset % 4 / 2)

def byte (offset : Nat) : U8 := quarter (r (offset / 4)) (offset % 4)

def dword (offset : Nat) : U32 := r (offset / 4)

def CommonHeader.ofRegisters : CommonHeader where
  vendorID := word r 0x00
  deviceID := word r 0x02
  command := word r 0x04
  status := word r 0x06
  revisionID := byte r 0x08
  progIF := byte r 0x09
  subClass := byte r 0x0a
  classCode := byte r 0x0b
  cacheLineSize := byte r 0x0c
  latencyTimer := byte r 0x0d
  headerType := byte r 0x0e
  bist := byte r 0x0f

def Header0.ofRegisters : Header0 where
  bar0 := dword r 0x10
  bar1 := dword r 0x14
  bar2 := dword r 0x18
  bar3 := dword r 0x1c
  bar4 := dword r 0x20
  bar5 := dword r 0x24
  cardbusCIS := dword r 0x28
  subsystemVendorID := word r 0x2c
  subsystemID := word r 0x2e
  expansionROM := dword r 0x30
  capabilityPointer := word r 0x34
  reserved1 := word r 0x36
  reserved2 := dword r 0x38
  interruptLine := byte r 0x3c
  interruptPIN := byte r 0x3d
  minGrant := byte r 0x3e
  maxLatency := byte r 0x3f
  commonHeader := .ofRegisters r

def Header1.ofRegisters : Header1 where
  bar0 := dword r 0x10
  bar1 := dword r 0x14
  primaryBusNumber := byte r 0x18
  secondaryBusNumber := byte r 0x19
  subordinateBusNumber := byte r 0x1a
  secondaryLatencyTimer := byte r 0x1b
  ioBase := byte r 0x1c
  ioLimit := byte r 0x1d
  secondaryStatus := word r 0x1e
  memoryBase := word r 0x20
  memoryLimit := word r 0x22
  prefetchMemoryBaseLower := word r 0x24
  prefetchMemoryLimitLower := word r 0x26
  prefetchBaseUpper := dword r 0x28
  prefetchLimitUpper := dword r 0x2c
  ioBaseUpper := word r 0x30
  ioLimitUpper := word r 0x32
  capabilityPointer := word r 0x34
  reserved1 := word r 0x36
  expansionROM := dword r 0x38
  interruptLine := byte r 0x3c
  interruptPIN := byte r 0x3d
  bridgeControl := word r 0x3e
  commonHeader := .ofRegisters r

end Registers

/-! ## What is expected -/

/-- The positions that are scanned, in order: the bus and the slot. -/
def positions : List (U8 × U8) :=
  (List.range 8).flatMap fun (bus : Nat) =>
    (List.range 32).map fun (slot : Nat) => (BitVec.ofNat 8 bus, BitVec.ofNat 8 slot)

variable (space : ConfigSpace)

def common (p : U8 × U8) : CommonHeader := .ofRegisters (register space p.1 p.2)

def isPresent (p : U8 × U8) : Bool := (common space p).vendorID != 0xffff

/-- The header type but for the bit of devices with several functions. -/
def layout (p : U8 × U8) : U8 := (common space p).headerType &&& 0x7f

/-- A device as the registers describe it, with no header of another one. -/
structure Right (d : Device) : Prop where
  header : d.header = common space (d.bus, d.slot)
  header0 : layout space (d.bus, d.slot) = 0 →
    d.header0.value = .ofRegisters (register space d.bus d.slot)
  header1 : layout space (d.bus, d.slot) = 1 →
    d.header1.value = .ofRegisters (register space d.bus d.slot)
  headerType : d.headerType = true ↔ layout space (d.bus, d.slot) = 1
  own0 : ∀ p, d.header0.source = some p → p = (d.bus, d.slot)
  own1 : ∀ p, d.header1.source = some p → p = (d.bus, d.slot)

structure Reports (s : Scan) : Prop where
  found : s.devices.map (fun d => (d.bus, d.slot)) = positions.filter (isPresent space)
  right : ∀ d ∈ s.devices, Right space d

/-- The four registers from 0x40 on repeat the first four. -/
def Repeats (p : U8 × U8) : Prop :=
  ∀ i < 4, register space p.1 p.2 (16 + i) = register space p.1 p.2 i

/-- The devices among the positions all have the header type 0, or all that of a bridge. -/
structure Uniform (ps : List (U8 × U8)) : Prop where
  repeats : ∀ p ∈ ps, isPresent space p = true → Repeats space p
  kind : (∀ p ∈ ps, isPresent space p = true → (common space p).headerType = 0) ∨
    ∀ p ∈ ps, isPresent space p = true → layout space p = 1

variable {space : ConfigSpace} {bus slot offset : U8} {raw w v r : Nat → U32} {i n : Nat}

/-! ## Reading a register -/

theorem createConfigAddress_fields (bus slot offset : U8) (small : slot.toNat < 32) :
    (createConfigAddress bus slot 0 offset).getLsbD 31 = true ∧
    (createConfigAddress bus slot 0 offset).extractLsb' 16 8 = bus ∧
    (createConfigAddress bus slot 0 offset).extractLsb' 11 5 = slot.setWidth 5 ∧
    (createConfigAddress bus slot 0 offset).extractLsb' 8 3 = 0 ∧
    (createConfigAddress bus slot 0 offset).extractLsb' 2 6 = offset.extractLsb' 2 6 := by
  have high (j : Nat) (ge : 5 ≤ j) (lt : j < 8) : slot[j] = false := by
    have le : 2 ^ 5 ≤ 2 ^ j := Nat.pow_le_pow_right (by decide) ge
    exact Nat.testBit_lt_two_pow (Nat.lt_of_lt_of_le small le)
  refine ⟨by simp [createConfigAddress], ?_, ?_, ?_, ?_⟩
  all_goals
    apply BitVec.eq_of_getLsbD_eq
    intro i hi
    interval_cases i <;> simp [createConfigAddress, high]

theorem readL_eq (small : slot.toNat < 32) :
    readL space bus slot (BitVec.ofNat 8 (n * 4)) = register space bus slot n := by
  obtain ⟨enabled, busBits, slotBits, funcBits, offsetBits⟩ :=
    createConfigAddress_fields bus slot (BitVec.ofNat 8 (n * 4)) small
  have place : (BitVec.ofNat 8 (n * 4)).extractLsb' 2 6 = BitVec.ofNat 6 n := by
    apply BitVec.eq_of_toNat_eq
    simp only [BitVec.extractLsb'_toNat, BitVec.toNat_ofNat, Nat.shiftRight_eq_div_pow]
    omega
  rw [readL, ConfigSpace.inl, if_pos enabled, busBits, slotBits, funcBits, offsetBits, place]
  rfl

/-! ## The words of a header -/

/-- A loop of assignments to the first elements of an array. -/
theorem foldl_update (f g : Nat → U32) (n : Nat) :
    (List.range n).foldl (fun f i => Function.update f i (g i)) f =
      fun i => if i < n then g i else f i := by
  induction n with
  | zero => rfl
  | succ n ih =>
    rw [List.range_succ, List.foldl_append, ih]
    funext i
    change Function.update (fun i => if i < n then g i else f i) n (g n) i = _
    rw [Function.update_apply]
    split_ifs with last lt more
    · rw [last]
    · omega
    · rfl
    · omega
    · omega
    · rfl

theorem CommonHeader.ofWords_congr (same : ∀ i < 4, w i = v i) : ofWords w = ofWords v := by
  simp only [ofWords, same 0 (by decide), same 1 (by decide), same 2 (by decide),
    same 3 (by decide)]

/-- A word from its halves. -/
theorem eq_of_halves {x y : U32} (low : half x 0 = half y 0) (high : half x 1 = half y 1) :
    x = y := by
  apply BitVec.eq_of_getLsbD_eq
  intro i hi
  have bit (k : Nat) (same : half x k = half y k) (j : Nat) (lt : j < 16) :
      x.getLsbD (16 * k + j) = y.getLsbD (16 * k + j) := by
    have bits := congrArg (·.getLsbD j) same
    simpa [half, lt] using bits
  rcases Nat.lt_or_ge i 16 with below | above
  · have first := bit 0 low i below
    rwa [Nat.mul_zero, Nat.zero_add] at first
  · have second := bit 1 high (i - 16) (by omega)
    rwa [Nat.mul_one, Nat.add_sub_cancel' above] at second

theorem half_of_quarters {x y : U32} {k : Nat} (low : quarter x (2 * k) = quarter y (2 * k))
    (high : quarter x (2 * k + 1) = quarter y (2 * k + 1)) : half x k = half y k := by
  apply BitVec.eq_of_getLsbD_eq
  intro i hi
  have bit (m : Nat) (same : quarter x m = quarter y m) (j : Nat) (lt : j < 8) :
      x.getLsbD (8 * m + j) = y.getLsbD (8 * m + j) := by
    have bits := congrArg (·.getLsbD j) same
    simpa [quarter, lt] using bits
  rcases Nat.lt_or_ge i 8 with below | above
  · have first := bit (2 * k) low i below
    have place : 8 * (2 * k) + i = 16 * k + i := by omega
    rw [place] at first
    simpa [half, hi] using first
  · have second := bit (2 * k + 1) high (i - 8) (by omega)
    have place : 8 * (2 * k + 1) + (i - 8) = 16 * k + i := by omega
    rw [place] at second
    simpa [half, hi] using second

theorem CommonHeader.ofWords_inj (same : ofWords w = ofWords v) : ∀ i < 4, w i = v i := by
  obtain ⟨h₀, h₁, h₂, h₃, q₀, q₁, q₂, q₃, q₄, q₅, q₆, q₇⟩ := CommonHeader.mk.inj same
  intro i lt
  interval_cases i
  · exact eq_of_halves h₀ h₁
  · exact eq_of_halves h₂ h₃
  · exact eq_of_halves (half_of_quarters q₀ q₁) (half_of_quarters q₂ q₃)
  · exact eq_of_halves (half_of_quarters q₄ q₅) (half_of_quarters q₆ q₇)

section Words

variable (small : slot.toNat < 32)
include small

theorem readCommonHeader_eq (lt : i < 4) :
    readCommonHeader space bus slot raw i = register space bus slot i := by
  rw [readCommonHeader, foldl_update]
  exact (if_pos lt).trans (readL_eq small)

theorem readHeader_eq (lt : i < 16) :
    readHeader space bus slot raw w i = register space bus slot (4 + i) := by
  rw [readHeader, foldl_update, Nat.add_comm 4 i]
  exact (if_pos lt).trans (readL_eq small)

theorem ofWords_readCommonHeader : CommonHeader.ofWords (readCommonHeader space bus slot raw) =
    common space (bus, slot) :=
  CommonHeader.ofWords_congr fun _ lt => readCommonHeader_eq small lt

/-- The common header in a header record is the four registers from 0x40 on. -/
theorem common_readHeader :
    (CommonHeader.ofWords fun i => readHeader space bus slot raw w (12 + i)) =
      .ofRegisters (register space bus slot) ↔ Repeats space (bus, slot) := by
  have words (i : Nat) (lt : i < 4) : readHeader space bus slot raw w (12 + i) =
      register space bus slot (16 + i) := by
    rw [readHeader_eq small (by omega), ← Nat.add_assoc]
  constructor
  · intro same i lt
    rw [← words i lt]
    exact CommonHeader.ofWords_inj same i lt
  · intro repeats
    exact CommonHeader.ofWords_congr fun i lt => (words i lt).trans (repeats i lt)

end Words

/-- The words of a header record, but for the common header. -/
theorem Header0.ofWords_eq (same : ∀ i < 12, w i = r (4 + i)) : Header0.ofWords w =
    { Header0.ofRegisters r with commonHeader := .ofWords fun i => w (12 + i) } := by
  simp only [ofWords, same 0 (by decide), same 1 (by decide), same 2 (by decide),
    same 3 (by decide), same 4 (by decide), same 5 (by decide), same 6 (by decide),
    same 7 (by decide), same 8 (by decide), same 9 (by decide), same 10 (by decide),
    same 11 (by decide)]
  rfl

theorem Header1.ofWords_eq (same : ∀ i < 12, w i = r (4 + i)) : Header1.ofWords w =
    { Header1.ofRegisters r with commonHeader := .ofWords fun i => w (12 + i) } := by
  simp only [ofWords, same 0 (by decide), same 1 (by decide), same 2 (by decide),
    same 3 (by decide), same 4 (by decide), same 5 (by decide), same 6 (by decide),
    same 7 (by decide), same 8 (by decide), same 9 (by decide), same 10 (by decide),
    same 11 (by decide)]
  rfl

section Headers

variable (small : slot.toNat < 32)
include small

theorem readHeader0_iff : readHeader0 space bus slot raw w =
    .ofRegisters (register space bus slot) ↔ Repeats space (bus, slot) := by
  have words (i : Nat) (lt : i < 12) := @readHeader_eq space bus slot raw w i small (by omega)
  rw [← @common_readHeader space bus slot raw w small, readHeader0, Header0.ofWords_eq words]
  constructor
  · intro same
    exact congrArg Header0.commonHeader same
  · intro same
    rw [same]
    rfl

theorem readHeader1_iff : readHeader1 space bus slot raw w =
    .ofRegisters (register space bus slot) ↔ Repeats space (bus, slot) := by
  have words (i : Nat) (lt : i < 12) := @readHeader_eq space bus slot raw w i small (by omega)
  rw [← @common_readHeader space bus slot raw w small, readHeader1, Header1.ofWords_eq words]
  constructor
  · intro same
    exact congrArg Header1.commonHeader same
  · intro same
    rw [same]
    rfl

end Headers

/-! ## One slot -/

/-- What the scan has read, after some positions. -/
structure Scanned (space : ConfigSpace) (ps : List (U8 × U8)) (s : Scan) : Prop where
  found : s.devices.map (fun d => (d.bus, d.slot)) = ps.filter (isPresent space)
  right : (∀ d ∈ s.devices, Right space d) ↔ Uniform space ps
  read0 : s.header0.source = none ↔
    ∀ p ∈ ps, isPresent space p = true → (common space p).headerType ≠ 0
  read1 : s.header1.source = none ↔
    ∀ p ∈ ps, isPresent space p = true → (common space p).headerType = 0
  mem0 : ∀ p, s.header0.source = some p → p ∈ ps
  mem1 : ∀ p, s.header1.source = some p → p ∈ ps

/-- The device that a slot adds, and what the local variables then hold. -/
structure Added (space : ConfigSpace) (s : Scan) (p : U8 × U8) (t : Scan) : Prop where
  devices : t.devices = s.devices ++
    [⟨common space p, t.header0, t.header1, t.headerType, true, p.2, p.1⟩]
  plain : (common space p).headerType = 0 → t.headerType = false ∧ t.header0.source = some p ∧
    t.header1 = s.header1 ∧
      (t.header0.value = .ofRegisters (register space p.1 p.2) ↔ Repeats space p)
  bridge : (common space p).headerType ≠ 0 → t.headerType = true ∧ t.header1.source = some p ∧
    t.header0 = s.header0 ∧
      (t.header1.value = .ofRegisters (register space p.1 p.2) ↔ Repeats space p)

theorem scanSlot_absent {s : Scan} (small : slot.toNat < 32)
    (absent : isPresent space (bus, slot) = false) : scanSlot space raw s bus slot = s := by
  have vendor : (common space (bus, slot)).vendorID = 0xffff := by simpa [isPresent] using absent
  rw [scanSlot]
  dsimp only
  rw [ofWords_readCommonHeader small, if_pos vendor]

theorem scanSlot_added {s : Scan} (small : slot.toNat < 32)
    (present : isPresent space (bus, slot) = true) :
    Added space s (bus, slot) (scanSlot space raw s bus slot) := by
  have vendor : ¬ (common space (bus, slot)).vendorID = 0xffff := by
    simpa [isPresent] using present
  rw [scanSlot]
  dsimp only
  rw [ofWords_readCommonHeader small, if_neg vendor]
  by_cases kind : (common space (bus, slot)).headerType = 0
  · rw [if_pos kind]
    split_ifs <;>
      exact ⟨rfl, fun _ => ⟨rfl, rfl, rfl, readHeader0_iff small⟩, fun other => absurd kind other⟩
  · rw [if_neg kind]
    split_ifs <;>
      exact ⟨rfl, fun other => absurd other kind, fun _ => ⟨rfl, rfl, rfl, readHeader1_iff small⟩⟩

/-! ## One more slot -/

section Step

variable {ps : List (U8 × U8)} {p q : U8 × U8} {s t : Scan}

theorem layout_of_plain (plain : (common space p).headerType = 0) : layout space p = 0 := by
  rw [layout, plain]
  rfl

theorem uniform_append : Uniform space (ps ++ [p]) ↔
    (∀ q ∈ ps, isPresent space q = true → Repeats space q) ∧
      (isPresent space p = true → Repeats space p) ∧
      ((∀ q ∈ ps, isPresent space q = true → (common space q).headerType = 0) ∧
          (isPresent space p = true → (common space p).headerType = 0) ∨
        (∀ q ∈ ps, isPresent space q = true → layout space q = 1) ∧
          (isPresent space p = true → layout space p = 1)) := by
  have all (P : U8 × U8 → Prop) : (∀ q ∈ ps ++ [p], P q) ↔ (∀ q ∈ ps, P q) ∧ P p := by
    simp [or_imp, forall_and]
  constructor
  · rintro ⟨repeats, kind⟩
    rw [all] at repeats kind
    rw [all] at kind
    exact ⟨repeats.1, repeats.2, kind⟩
  · rintro ⟨before, last, kind⟩
    refine ⟨(all _).mpr ⟨before, last⟩, ?_⟩
    rwa [all, all]

theorem Scanned.absent (scanned : Scanned space ps s) (absent : isPresent space p = false) :
    Scanned space (ps ++ [p]) s := by
  have skip (P : Prop) : (isPresent space p = true → P) ↔ True := by simp [absent]
  have all (P : U8 × U8 → Prop) : (∀ q ∈ ps ++ [p], isPresent space q = true → P q) ↔
      ∀ q ∈ ps, isPresent space q = true → P q := by
    simp [or_imp, forall_and, absent]
  refine ⟨?_, ?_, ?_, ?_, fun q read => ?_, fun q read => ?_⟩
  · rw [scanned.found, List.filter_append, List.filter_singleton, absent]
    exact (List.append_nil _).symm
  · rw [scanned.right, uniform_append, skip, skip, skip]
    exact ⟨fun uniform => ⟨uniform.repeats, trivial, by simpa using uniform.kind⟩,
      fun ⟨repeats, _, kind⟩ => ⟨repeats, by simpa using kind⟩⟩
  · rw [scanned.read0, all]
  · rw [scanned.read1, all]
  · exact List.mem_append_left _ (scanned.mem0 q read)
  · exact List.mem_append_left _ (scanned.mem1 q read)

/-- A header that a device before it has not read is no other device's. -/
theorem own_iff {α : Type} {x : Local α} (mem : ∀ q, x.source = some q → q ∈ ps) (new : p ∉ ps) :
    (∀ q, x.source = some q → q = p) ↔ x.source = none := by
  constructor
  · intro own
    cases source : x.source with
    | none => rfl
    | some q => exact absurd (own q source ▸ mem q source) new
  · intro unread q source
    rw [unread] at source
    cases source

theorem Added.right_plain (added : Added space s p t) (scanned : Scanned space ps s) (new : p ∉ ps)
    (kind : (common space p).headerType = 0) :
    Right space ⟨common space p, t.header0, t.header1, t.headerType, true, p.2, p.1⟩ ↔
      Repeats space p ∧ ∀ q ∈ ps, isPresent space q = true → (common space q).headerType = 0 := by
  obtain ⟨flag, own, other, value⟩ := added.plain kind
  have zero := layout_of_plain kind
  rw [← scanned.read1, ← own_iff scanned.mem1 new, ← value]
  constructor
  · intro right
    exact ⟨right.header0 zero, other ▸ right.own1⟩
  · rintro ⟨header, alone⟩
    refine ⟨rfl, fun _ => header, fun one => ?_, ?_, fun q read => ?_, other ▸ alone⟩
    · exact absurd (zero.symm.trans one) (by decide)
    · refine iff_of_false (by simp [flag]) fun one => ?_
      exact absurd (zero.symm.trans one) (by decide)
    · exact (Option.some.inj (own.symm.trans read)).symm

theorem Added.right_bridge (added : Added space s p t) (scanned : Scanned space ps s)
    (new : p ∉ ps) (kind : (common space p).headerType ≠ 0) :
    Right space ⟨common space p, t.header0, t.header1, t.headerType, true, p.2, p.1⟩ ↔
      Repeats space p ∧ layout space p = 1 ∧
        ∀ q ∈ ps, isPresent space q = true → (common space q).headerType ≠ 0 := by
  obtain ⟨flag, own, other, value⟩ := added.bridge kind
  rw [← scanned.read0, ← own_iff scanned.mem0 new, ← value]
  constructor
  · intro right
    have one := right.headerType.mp flag
    exact ⟨right.header1 one, one, other ▸ right.own0⟩
  · rintro ⟨header, one, alone⟩
    refine ⟨rfl, fun zero => ?_, fun _ => header, iff_of_true flag one, other ▸ alone,
      fun q read => ?_⟩
    · exact absurd (zero.symm.trans one) (by decide)
    · exact (Option.some.inj (own.symm.trans read)).symm

theorem Added.right_iff (added : Added space s p t) (scanned : Scanned space ps s) (new : p ∉ ps)
    (present : isPresent space p = true) (uniform : Uniform space ps) :
    Right space ⟨common space p, t.header0, t.header1, t.headerType, true, p.2, p.1⟩ ↔
      Uniform space (ps ++ [p]) := by
  rw [uniform_append]
  by_cases kind : (common space p).headerType = 0
  · have zero := layout_of_plain kind
    rw [added.right_plain scanned new kind]
    constructor
    · rintro ⟨repeats, all⟩
      exact ⟨uniform.repeats, fun _ => repeats, .inl ⟨all, fun _ => kind⟩⟩
    · rintro ⟨-, repeats, ⟨all, -⟩ | ⟨-, one⟩⟩
      · exact ⟨repeats present, all⟩
      · exact absurd (zero.symm.trans (one present)) (by decide)
  · rw [added.right_bridge scanned new kind]
    constructor
    · rintro ⟨repeats, one, all⟩
      refine ⟨uniform.repeats, fun _ => repeats, .inr ⟨?_, fun _ => one⟩⟩
      rcases uniform.kind with plain | bridges
      · exact fun q mem found => absurd (plain q mem found) (all q mem found)
      · exact bridges
    · rintro ⟨-, repeats, ⟨-, plain⟩ | ⟨all, one⟩⟩
      · exact absurd (plain present) kind
      · refine ⟨repeats present, one present, fun q mem found plain => ?_⟩
        exact absurd ((layout_of_plain plain).symm.trans (all q mem found)) (by decide)

theorem Scanned.added (scanned : Scanned space ps s) (added : Added space s p t) (new : p ∉ ps)
    (present : isPresent space p = true) : Scanned space (ps ++ [p]) t := by
  have last (P : U8 × U8 → Prop) : (∀ q ∈ ps ++ [p], isPresent space q = true → P q) ↔
      (∀ q ∈ ps, isPresent space q = true → P q) ∧ P p := by
    simp [or_imp, forall_and, present]
  have mem : p ∈ ps ++ [p] := List.mem_append_right _ (List.mem_singleton.mpr rfl)
  have found : t.devices.map (fun d => (d.bus, d.slot)) = (ps ++ [p]).filter (isPresent space) := by
    rw [added.devices, List.map_append, scanned.found, List.filter_append, List.filter_singleton,
      present]
    rfl
  have right : (∀ d ∈ t.devices, Right space d) ↔ Uniform space (ps ++ [p]) := by
    rw [added.devices, List.forall_mem_append, List.forall_mem_singleton, scanned.right]
    constructor
    · rintro ⟨uniform, right⟩
      exact (added.right_iff scanned new present uniform).mp right
    · intro all
      have uniform : Uniform space ps :=
        ⟨fun q mem => all.repeats q (List.mem_append_left _ mem),
          all.kind.imp (fun plain q mem => plain q (List.mem_append_left _ mem))
            fun bridge q mem => bridge q (List.mem_append_left _ mem)⟩
      exact ⟨uniform, (added.right_iff scanned new present uniform).mpr all⟩
  by_cases kind : (common space p).headerType = 0
  · obtain ⟨-, own, other, -⟩ := added.plain kind
    refine ⟨found, right, ?_, ?_, fun q read => ?_, fun q read => ?_⟩
    · rw [own, last]
      exact iff_of_false nofun fun both => both.2 kind
    · rw [other, last, scanned.read1]
      exact (and_iff_left kind).symm
    · exact Option.some.inj (own.symm.trans read) ▸ mem
    · exact List.mem_append_left _ (scanned.mem1 q (other ▸ read))
  · obtain ⟨-, own, other, -⟩ := added.bridge kind
    refine ⟨found, right, ?_, ?_, fun q read => ?_, fun q read => ?_⟩
    · rw [other, last, scanned.read0]
      exact (and_iff_left kind).symm
    · rw [own, last]
      exact iff_of_false nofun fun both => kind both.2
    · exact List.mem_append_left _ (scanned.mem0 q (other ▸ read))
    · exact Option.some.inj (own.symm.trans read) ▸ mem

end Step

/-! ## The whole scan -/

theorem scanBusses_eq (s : Scan) : scanBusses space raw s =
    positions.foldl (fun s p => scanSlot space raw s p.1 p.2) s := by
  rw [scanBusses, positions, List.foldl_flatMap]
  simp only [List.foldl_map]

theorem mem_positions {p : U8 × U8} :
    p ∈ positions ↔ ∃ b < 8, ∃ k < 32, (BitVec.ofNat 8 b, BitVec.ofNat 8 k) = p := by
  simp only [positions, List.mem_flatMap, List.mem_map, List.mem_range]

theorem positions_nodup : positions.Nodup := by
  have same {i j : Nat} (hi : i < 256) (hj : j < 256) (eq : BitVec.ofNat 8 i = BitVec.ofNat 8 j) :
      i = j := by
    have := congrArg BitVec.toNat eq
    rwa [BitVec.toNat_ofNat, BitVec.toNat_ofNat, Nat.mod_eq_of_lt hi, Nat.mod_eq_of_lt hj] at this
  rw [positions, List.nodup_flatMap]
  constructor
  · intro b _
    refine List.nodup_range.map_on fun i hi j hj eq => ?_
    rw [List.mem_range] at hi hj
    exact same (by omega) (by omega) (Prod.mk.inj eq).2
  · refine List.nodup_range.pairwise_of_forall_ne fun b hb c hc ne => ?_
    rw [List.mem_range] at hb hc
    intro p first second
    obtain ⟨i, -, rfl⟩ := List.mem_map.mp first
    obtain ⟨j, -, eq⟩ := List.mem_map.mp second
    exact ne (same (by omega) (by omega) (Prod.mk.inj eq).1.symm)

theorem positions_small : ∀ p ∈ positions, p.2.toNat < 32 := by
  intro p mem
  obtain ⟨b, -, k, lt, rfl⟩ := mem_positions.mp mem
  change (BitVec.ofNat 8 k).toNat < 32
  rw [BitVec.toNat_ofNat, Nat.mod_eq_of_lt (by omega)]
  exact lt

/-- The slots are scanned one after the other. -/
theorem scanned_foldl {s : Scan} (start : Scanned space [] s) (ps : List (U8 × U8))
    (nodup : ps.Nodup) (small : ∀ p ∈ ps, p.2.toNat < 32) :
    Scanned space ps (ps.foldl (fun s p => scanSlot space raw s p.1 p.2) s) := by
  induction ps using List.reverseRecOn with
  | nil => exact start
  | append_singleton ps p ih =>
    obtain ⟨before, -, apart⟩ := List.nodup_append'.mp nodup
    have scanned := ih before fun q mem => small q (List.mem_append_left _ mem)
    have low := small p (List.mem_append_right _ (List.mem_singleton.mpr rfl))
    rw [List.foldl_append, List.foldl_cons, List.foldl_nil]
    cases present : isPresent space p with
    | true =>
      refine scanned.added (scanSlot_added low present) (fun mem => ?_) present
      exact apart mem (List.mem_singleton.mpr rfl)
    | false =>
      rw [scanSlot_absent low present]
      exact scanned.absent present

theorem scanned_start (headerType : Bool) (ahci floppy : Option Nat) :
    Scanned space [] (.start raw headerType ahci floppy) := by
  refine ⟨rfl, ?_, ?_, ?_, nofun, nofun⟩
  · exact iff_of_true (fun d mem => absurd mem List.not_mem_nil)
      ⟨fun p mem => absurd mem List.not_mem_nil, .inl fun p mem => absurd mem List.not_mem_nil⟩
  · exact iff_of_true rfl fun p mem => absurd mem List.not_mem_nil
  · exact iff_of_true rfl fun p mem => absurd mem List.not_mem_nil

theorem scanned_scanBusses (space : ConfigSpace) (raw : Nat → U32) (headerType : Bool)
    (ahci floppy : Option Nat) :
    Scanned space positions (scanBusses space raw (.start raw headerType ahci floppy)) := by
  rw [scanBusses_eq]
  exact scanned_foldl (scanned_start headerType ahci floppy) _ positions_nodup positions_small

/--
The scan finds the devices that are there. It reports what the hardware says of them if and only if
they all have the header type 0, or all that of a bridge, and the registers of each from 0x40 on
repeat its first ones.
-/
theorem scanBusses_reports_iff (space : ConfigSpace) (raw : Nat → U32) (headerType : Bool)
    (ahci floppy : Option Nat) :
    (scanBusses space raw (.start raw headerType ahci floppy)).devices.map
        (fun d => (d.bus, d.slot)) = positions.filter (isPresent space) ∧
      (Reports space (scanBusses space raw (.start raw headerType ahci floppy)) ↔
        Uniform space positions) := by
  have scanned := scanned_scanBusses space raw headerType ahci floppy
  refine ⟨scanned.found, ?_⟩
  rw [← scanned.right]
  exact ⟨Reports.right, fun right => ⟨scanned.found, right⟩⟩

/-- One device in the first slot of the first bus, whose registers but for the first one are 0. -/
def oneDevice : ConfigSpace := fun bus slot func n =>
  if bus = 0 ∧ slot = 0 ∧ func = 0 then if n = 0 then 0x12378086 else 0 else 0xffffffff

/-- The common header in its header record is not the one that it has. -/
theorem oneDevice_misreported : ¬ Reports oneDevice
    (scanBusses oneDevice (fun _ => 0) (.start (fun _ => 0) false none none)) := by
  intro reports
  have uniform := (scanned_scanBusses oneDevice (fun _ => 0) false none none).right.mp reports.right
  have first : (0, 0) ∈ positions := mem_positions.mpr ⟨0, by decide, 0, by decide, rfl⟩
  have repeats := uniform.repeats (0, 0) first (by decide) 0 (by decide)
  exact absurd repeats (by decide)

end ChudOS.PCI
