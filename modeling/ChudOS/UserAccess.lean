import ChudOS.Userland.Tasks
import Mathlib.Algebra.Group.Nat.Defs

/-!
# Checks of user addresses

`mem_access_ok` compares an address with the bounds of three regions. It refuses the first byte of the
code region and accepts the page below a stack but for that page's first byte. The copy helpers ask
it about the first address only.

## Main definitions

* `InRegions` — the addresses that belong to a task.
* `Judged` — the addresses that `mem_access_ok` is right about.
* `GuardedCopy` — what a copy out of a program's memory may do.
-/

namespace ChudOS

/-! ## The regions of a task -/

def InCode (m : TaskMemoryDefinition) (v : U64) : Prop :=
  m.baseVirtualAddress.toNat ≤ v.toNat ∧
    v.toNat < m.baseVirtualAddress.toNat + m.pageCount.toNat * 0x1000

/-- The `count` pages that end with the one at `base`. -/
def InStack (base count v : U64) : Prop :=
  base.toNat + 0x1000 ≤ v.toNat + count.toNat * 0x1000 ∧ v.toNat < base.toNat + 0x1000

def InRegions (m : TaskMemoryDefinition) (v : U64) : Prop :=
  InCode m v ∨ InStack m.stackBaseVirtualAddress m.stackPageCount v ∨
    InStack m.kernelStackBaseVirtualAddress m.kernelStackPageCount v

instance (m : TaskMemoryDefinition) (v : U64) : Decidable (InRegions m v) :=
  inferInstanceAs (Decidable ((_ ∧ _) ∨ (_ ∧ _) ∨ (_ ∧ _)))

/-- The page below a stack, but for its first byte. -/
def UnderStack (base count v : U64) : Prop :=
  base.toNat < v.toNat + count.toNat * 0x1000 ∧
    v.toNat + count.toNat * 0x1000 < base.toNat + 0x1000 ∧
      count.toNat * 0x1000 ≤ base.toNat ∧ base.toNat + 0x1000 < 2 ^ 64

/-- The bounds of the code region, as 64-bit numbers, are on both sides of an address. -/
def CodeEncloses (m : TaskMemoryDefinition) (v : U64) : Prop :=
  m.baseVirtualAddress < v ∧ v < getMemLowHigh m.baseVirtualAddress m.pageCount true

def StackEncloses (base count v : U64) : Prop :=
  v < base + 0x1000 ∧ getMemLowHigh base count false < v

def UnderStacks (m : TaskMemoryDefinition) (v : U64) : Prop :=
  UnderStack m.stackBaseVirtualAddress m.stackPageCount v ∨
    UnderStack m.kernelStackBaseVirtualAddress m.kernelStackPageCount v

/-- The address is not one that only the page below a stack covers. If it lies in a region, then
it also lies in one that encloses it, or below a stack; a region that does not wrap around encloses
all its addresses, but for the first of the code. -/
structure Judged (m : TaskMemoryDefinition) (v : U64) : Prop where
  under : UnderStacks m v → InRegions m v
  enclosed : InRegions m v → UnderStacks m v ∨ InCode m v ∧ CodeEncloses m v ∨
    InStack m.stackBaseVirtualAddress m.stackPageCount v ∧
      StackEncloses m.stackBaseVirtualAddress m.stackPageCount v ∨
    InStack m.kernelStackBaseVirtualAddress m.kernelStackPageCount v ∧
      StackEncloses m.kernelStackBaseVirtualAddress m.kernelStackPageCount v

variable {m : TaskMemoryDefinition} {base count v : U64}

theorem CodeEncloses.inCode (h : CodeEncloses m v) : InCode m v := by
  obtain ⟨low, high⟩ := h
  rw [getMemLowHigh, BitVec.lt_def, BitVec.toNat_add, BitVec.toNat_mul] at high
  rw [BitVec.lt_def] at low
  simp only [if_true] at high
  refine ⟨Nat.le_of_lt low, ?_⟩
  change _ < (_ + (_ * 4096) % _) % _ at high
  omega

theorem getMemLowHigh_false : getMemLowHigh base count false = base - count * 0x1000 := by
  rw [getMemLowHigh]
  grind

/-- The bounds of a stack enclose its own addresses and those under it. -/
theorem StackEncloses.inStack (h : StackEncloses base count v) :
    InStack base count v ∨ UnderStack base count v := by
  obtain ⟨high, low⟩ := h
  rw [getMemLowHigh_false, BitVec.lt_def, BitVec.toNat_sub, BitVec.toNat_mul] at low
  rw [BitVec.lt_def, BitVec.toNat_add] at high
  change (2 ^ 64 - _ * 4096 % 2 ^ 64 + _) % _ < _ at low
  change _ < (_ + 4096) % _ at high
  rw [InStack, UnderStack]
  have := v.isLt
  have := base.isLt
  omega

theorem UnderStack.encloses (h : UnderStack base count v) : StackEncloses base count v := by
  obtain ⟨low, high, bottom, top⟩ := h
  rw [StackEncloses, getMemLowHigh_false, BitVec.lt_def, BitVec.lt_def, BitVec.toNat_sub,
    BitVec.toNat_mul, BitVec.toNat_add]
  change _ < (_ + 4096) % _ ∧ (2 ^ 64 - _ * 4096 % 2 ^ 64 + _) % _ < _
  omega

theorem regionAccessOk_iff : regionAccessOk m v = true ↔ CodeEncloses m v ∨
    StackEncloses m.stackBaseVirtualAddress m.stackPageCount v ∨
      StackEncloses m.kernelStackBaseVirtualAddress m.kernelStackPageCount v := by
  simp [regionAccessOk, CodeEncloses, StackEncloses, or_assoc]

theorem UnderStacks.access (h : UnderStacks m v) : regionAccessOk m v = true := by
  rw [regionAccessOk_iff]
  rcases h with under | under
  · exact .inr (.inl under.encloses)
  · exact .inr (.inr under.encloses)

/-- `mem_access_ok` is right about an address just when it is `Judged`. -/
theorem regionAccessOk_exact : (regionAccessOk m v = true ↔ InRegions m v) ↔ Judged m v := by
  constructor
  · intro exact
    refine ⟨fun under => exact.mp under.access, fun inside => ?_⟩
    rcases regionAccessOk_iff.mp (exact.mpr inside) with h | h | h
    · exact .inr (.inl ⟨h.inCode, h⟩)
    · rcases h.inStack with own | under
      · exact .inr (.inr (.inl ⟨own, h⟩))
      · exact .inl (.inl under)
    · rcases h.inStack with own | under
      · exact .inr (.inr (.inr ⟨own, h⟩))
      · exact .inl (.inr under)
  · rintro ⟨under, enclosed⟩
    constructor
    · intro ok
      rcases regionAccessOk_iff.mp ok with h | h | h
      · exact .inl h.inCode
      · rcases h.inStack with own | below
        · exact .inr (.inl own)
        · exact under (.inl below)
      · rcases h.inStack with own | below
        · exact .inr (.inr own)
        · exact under (.inr below)
    · intro inside
      rcases enclosed inside with below | ⟨-, h⟩ | ⟨-, h⟩ | ⟨-, h⟩
      · exact below.access
      · exact regionAccessOk_iff.mpr (.inl h)
      · exact regionAccessOk_iff.mpr (.inr (.inl h))
      · exact regionAccessOk_iff.mpr (.inr (.inr h))

/-! ## Regions within the address space -/

/-- No bound of a region wraps around. -/
structure Fits (m : TaskMemoryDefinition) : Prop where
  code : m.baseVirtualAddress.toNat + m.pageCount.toNat * 0x1000 < 2 ^ 64
  stackTop : m.stackBaseVirtualAddress.toNat + 0x1000 < 2 ^ 64
  stackBottom : m.stackPageCount.toNat * 0x1000 ≤ m.stackBaseVirtualAddress.toNat
  kernelTop : m.kernelStackBaseVirtualAddress.toNat + 0x1000 < 2 ^ 64
  kernelBottom : m.kernelStackPageCount.toNat * 0x1000 ≤ m.kernelStackBaseVirtualAddress.toNat

theorem InCode.encloses (h : InCode m v) (fits : Fits m) (ne : v ≠ m.baseVirtualAddress) :
    CodeEncloses m v := by
  obtain ⟨low, high⟩ := h
  have code := fits.code
  have ne : v.toNat ≠ m.baseVirtualAddress.toNat := fun eq => ne (BitVec.eq_of_toNat_eq eq)
  rw [CodeEncloses, getMemLowHigh, BitVec.lt_def, BitVec.lt_def, BitVec.toNat_add, BitVec.toNat_mul]
  change _ < _ ∧ _ < (_ + (_ * 4096) % _) % _
  omega

theorem InStack.encloses (h : InStack base count v) (top : base.toNat + 0x1000 < 2 ^ 64)
    (bottom : count.toNat * 0x1000 ≤ base.toNat) : StackEncloses base count v := by
  obtain ⟨low, high⟩ := h
  rw [StackEncloses, getMemLowHigh_false, BitVec.lt_def, BitVec.lt_def, BitVec.toNat_sub,
    BitVec.toNat_mul, BitVec.toNat_add]
  change _ < (_ + 4096) % _ ∧ (2 ^ 64 - _ * 4096 % 2 ^ 64 + _) % _ < _
  omega

/-- Of regions that do not wrap around, `mem_access_ok` misjudges the first byte of the code and the
pages below the stacks only, and these where no stack, or no region, covers them. -/
theorem judged_iff_of_fits (fits : Fits m) : Judged m v ↔ (UnderStacks m v → InRegions m v) ∧
    (InCode m v → v = m.baseVirtualAddress → UnderStacks m v ∨
      InStack m.stackBaseVirtualAddress m.stackPageCount v ∨
        InStack m.kernelStackBaseVirtualAddress m.kernelStackPageCount v) := by
  constructor
  · rintro ⟨under, enclosed⟩
    refine ⟨under, fun code first => ?_⟩
    rcases enclosed (.inl code) with below | ⟨-, h⟩ | ⟨h, -⟩ | ⟨h, -⟩
    · exact .inl below
    · exact absurd (first ▸ h.1) (BitVec.lt_irrefl _)
    · exact .inr (.inl h)
    · exact .inr (.inr h)
  · rintro ⟨under, first⟩
    refine ⟨under, fun inside => ?_⟩
    have stack (h : InStack m.stackBaseVirtualAddress m.stackPageCount v) :=
      h.encloses fits.stackTop fits.stackBottom
    have kernel (h : InStack m.kernelStackBaseVirtualAddress m.kernelStackPageCount v) :=
      h.encloses fits.kernelTop fits.kernelBottom
    rcases inside with h | h | h
    · by_cases eq : v = m.baseVirtualAddress
      · rcases first h eq with below | own | own
        · exact .inl below
        · exact .inr (.inr (.inl ⟨own, stack own⟩))
        · exact .inr (.inr (.inr ⟨own, kernel own⟩))
      · exact .inr (.inl ⟨h, h.encloses fits eq⟩)
    · exact .inr (.inr (.inl ⟨h, stack h⟩))
    · exact .inr (.inr (.inr ⟨h, kernel h⟩))

/-! ## The copy helpers -/

/-- A copy that reads the bytes `wanted` by the caller if all of them are the program's own, and else
reads none, leaves the buffer alone and returns `refused`. -/
structure GuardedCopy (k : Kernel) (dest : Nat → U8) (refused : U64) (wanted : U64 → Prop)
    (c : UserCopy) : Prop where
  own : ∀ a ∈ c.reads, memAccessOk k a k.curPid = true
  all : (∀ a, wanted a → memAccessOk k a k.curPid = true) → ∀ a, a ∈ c.reads ↔ wanted a
  refuses : ¬ (∀ a, wanted a → memAccessOk k a k.curPid = true) →
    c.result = refused ∧ c.dest = dest

/-- The bytes of a buffer of `n` bytes. -/
def InBuffer (src n a : U64) : Prop := ∃ i < n.toNat, a = src + BitVec.ofNat 64 i

/-- The bytes of a string, its terminator included, of which `count + 1` count. -/
def InString (read : U64 → U8) (src count a : U64) : Prop :=
  ∃ i ≤ count.toNat, (∀ j < i, read (src + BitVec.ofNat 64 j) ≠ 0) ∧ a = src + BitVec.ofNat 64 i

variable {k : Kernel} {read : U64 → U8} {dest : Nat → U8} {src n a : U64} {i c : Nat}

/-- A copy that only asks about the first address is guarded when that decides about the others. -/
theorem guarded_iff {refused : U64} {wanted : U64 → Prop} {c : UserCopy}
    (accepted : memAccessOk k src k.curPid = true → ∀ a, a ∈ c.reads ↔ wanted a)
    (rejected : ¬ memAccessOk k src k.curPid = true → c = ⟨dest, [], refused⟩)
    (first : ∀ a, wanted a → wanted src) : GuardedCopy k dest refused wanted c ↔
      (memAccessOk k src k.curPid = true → ∀ a, wanted a → memAccessOk k a k.curPid = true) := by
  constructor
  · intro guarded ok a ha
    exact guarded.own a ((accepted ok a).mpr ha)
  · intro decides
    by_cases ok : memAccessOk k src k.curPid = true
    · exact ⟨fun a ha => decides ok a ((accepted ok a).mp ha), fun _ => accepted ok,
        fun some => absurd (decides ok) some⟩
    · obtain rfl := rejected ok
      exact ⟨nofun, fun all a => ⟨nofun, fun ha => absurd (all src (first a ha)) ok⟩,
        fun _ => ⟨rfl, rfl⟩⟩

theorem copyFromUser_guarded : GuardedCopy k dest n (InBuffer src n) (copyFromUser k read dest src n) ↔
    (memAccessOk k src k.curPid = true →
      ∀ a, InBuffer src n a → memAccessOk k a k.curPid = true) := by
  refine guarded_iff (fun ok a => ?_) (fun no => ?_) fun a ha => ?_
  · rw [copyFromUser, if_pos ok]
    simp [InBuffer, eq_comm]
  · rw [copyFromUser, if_neg no]
  · obtain ⟨i, hi, -⟩ := ha
    exact ⟨0, Nat.zero_lt_of_lt hi, by simp⟩

/-- The loop reads up to the terminator, or one byte more than the count. -/
theorem mem_strcpyLoop : a ∈ (strcpyLoop read src c i dest).reads ↔
    ∃ l ≤ c, (∀ j < l, read (src + BitVec.ofNat 64 (i + j)) ≠ 0) ∧
      a = src + BitVec.ofNat 64 (i + l) := by
  induction c generalizing i dest with
  | zero =>
    rw [strcpyLoop, List.mem_singleton]
    constructor
    · rintro rfl
      exact ⟨0, Nat.le_refl 0, nofun, rfl⟩
    · rintro ⟨l, hl, -, rfl⟩
      obtain rfl := Nat.le_zero.mp hl
      rfl
  | succ c ih =>
    rw [strcpyLoop]
    dsimp only
    split_ifs with ended
    · rw [List.mem_singleton]
      constructor
      · rintro rfl
        exact ⟨0, Nat.zero_le _, nofun, rfl⟩
      · rintro ⟨l, -, before, rfl⟩
        cases l with
        | zero => rfl
        | succ l => exact absurd ended (before 0 (Nat.succ_pos l))
    · rw [List.mem_cons, ih]
      constructor
      · rintro (rfl | ⟨l, hl, before, rfl⟩)
        · exact ⟨0, Nat.zero_le _, nofun, rfl⟩
        · refine ⟨l + 1, by omega, fun j hj => ?_, by rw [Nat.add_right_comm, Nat.add_assoc]⟩
          cases j with
          | zero => exact ended
          | succ j =>
            have := before j (by omega)
            rwa [Nat.add_right_comm, Nat.add_assoc] at this
      · rintro ⟨l, hl, before, rfl⟩
        cases l with
        | zero => exact .inl rfl
        | succ l =>
          refine .inr ⟨l, by omega, fun j hj => ?_, by rw [Nat.add_right_comm, Nat.add_assoc]⟩
          have := before (j + 1) (by omega)
          rwa [Nat.add_right_comm, Nat.add_assoc]

theorem strcpyFromUser_guarded :
    GuardedCopy k dest 0 (InString read src n) (strcpyFromUser k read dest src n) ↔
      (memAccessOk k src k.curPid = true →
        ∀ a, InString read src n a → memAccessOk k a k.curPid = true) := by
  refine guarded_iff (fun ok a => ?_) (fun no => ?_) fun a _ => ?_
  · rw [strcpyFromUser, if_pos ok, mem_strcpyLoop, InString]
    simp only [Nat.zero_add]
  · rw [strcpyFromUser, if_neg no]
  · exact ⟨0, Nat.zero_le _, nofun, by simp⟩

/-- Exactly when `mem_access_ok` is right about an address, and exactly when each of the copy helpers
reads no foreign byte. -/
theorem user_access_exact (k : Kernel) (pid : Nat) (v : U64) (read : U64 → U8) (dest : Nat → U8)
    (src n : U64) :
    ((memAccessOk k v pid = true ↔ InRegions (k.taskManager pid).memoryData v) ↔
      Judged (k.taskManager pid).memoryData v) ∧
    (GuardedCopy k dest n (InBuffer src n) (copyFromUser k read dest src n) ↔
      (memAccessOk k src k.curPid = true →
        ∀ a, InBuffer src n a → memAccessOk k a k.curPid = true)) ∧
    (GuardedCopy k dest 0 (InString read src n) (strcpyFromUser k read dest src n) ↔
      (memAccessOk k src k.curPid = true →
        ∀ a, InString read src n a → memAccessOk k a k.curPid = true)) :=
  ⟨regionAccessOk_exact, copyFromUser_guarded, strcpyFromUser_guarded⟩

/-- A program of two pages at `0x400000` with one page of stack. -/
def smallProgram : TaskMemoryDefinition := ⟨0x400000, 2, 0x7FFF0000, 1, 0, 0, 0⟩

/-- The first byte of the code is refused, and the 4095 bytes below the stack are accepted. -/
theorem user_access_inexact :
    (regionAccessOk smallProgram 0x400000 = false ∧ InRegions smallProgram 0x400000) ∧
      regionAccessOk smallProgram 0x7FFEF001 = true ∧ ¬ InRegions smallProgram 0x7FFEF001 := by
  decide

end ChudOS
