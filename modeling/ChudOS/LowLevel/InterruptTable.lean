import ChudOS.Library.BitFields
import ChudOS.LowLevel.InterruptStubs

/-!
# The interrupt descriptor table

`IDT.c`, and the calls of `SetIDTEntry` in `kernel_startup`. The addresses of the stubs are those that
the linker has given them.
-/

namespace ChudOS

structure IDTEntry where
  offsetLow : U16
  selector : U16
  ist : U8
  flags : U8
  offsetMiddle : U16
  offsetHigh : U32
  zero : U32

def setIDTEntry (entryNum : U8) (handlerAddress : U64) (selector : U16) (flags ist : U8)
    (idt : U8 → IDTEntry) : U8 → IDTEntry :=
  Function.update idt entryNum
    { offsetLow := (handlerAddress &&& 0xFFFF).setWidth 16
      selector := selector
      ist := ist &&& 0b111
      flags := flags
      offsetMiddle := (handlerAddress >>> 16 &&& 0xFFFF).setWidth 16
      offsetHigh := (handlerAddress >>> 32 &&& 0xFFFFFFFF).setWidth 32
      zero := 0 }

/-- The table that `kernel_startup` loads. -/
def kernelStartupIDT (address : Stub → U64) (idt : U8 → IDTEntry) : U8 → IDTEntry :=
  let idt := (List.range 256).foldl (fun idt i =>
    setIDTEntry (BitVec.ofNat 8 i) (address .kernelPanic) 0x08 0x8E 0x04 idt) idt
  let idt := setIDTEntry 0x06 (address .invalidOpcode) 0x08 0x8E 0x04 idt
  let idt := setIDTEntry 0x0D (address .gpf) 0x08 0x8E 0x04 idt
  let idt := setIDTEntry 0x0E (address .pageFault) 0x08 0x8E 0x00 idt
  let idt := setIDTEntry 0x80 (address .isr80) 0x08 0xEF 0x00 idt
  let idt := setIDTEntry 0x20 (address .timer) 0x08 0x8E 0x00 idt
  let idt := setIDTEntry 0x28 (address .syncTime) 0x08 0x8E 0x01 idt
  setIDTEntry 0x21 (address .keyboard) 0x08 0x8E 0x00 idt

/-- `FLOPPY_Init_Controller` adds its own. -/
def floppyInitIDT (address : Stub → U64) : (U8 → IDTEntry) → U8 → IDTEntry :=
  setIDTEntry 0x26 (address .floppyDrive) 0x08 0x8F 0x00

/-- `AHCI_Init`, for the interrupt line of the device. -/
def ahciInitIDT (address : Stub → U64) (line : U8) : (U8 → IDTEntry) → U8 → IDTEntry :=
  setIDTEntry (line + 0x20) (address .ahci) 0x08 0x8E 0x00

/-! ## The processor's view -/

/-- A gate as the processor takes it from the sixteen bytes of an entry. -/
structure Gate where
  offset : U64
  selector : U16
  ist : BitVec 3
  kind : BitVec 4
  dpl : BitVec 2
  present : Bool
  deriving DecidableEq

def IDTEntry.gate (e : IDTEntry) : Gate where
  offset := e.offsetHigh ++ e.offsetMiddle ++ e.offsetLow
  selector := e.selector
  ist := e.ist.setWidth 3
  kind := e.flags.setWidth 4
  dpl := (e.flags >>> 5).setWidth 2
  present := e.flags.getLsbD 7

/-- The gate that `SetIDTEntry` is to write. -/
def gateTo (handlerAddress : U64) (selector : U16) (flags ist : U8) : Gate :=
  ⟨handlerAddress, selector, ist.setWidth 3, flags.setWidth 4, (flags >>> 5).setWidth 2,
    flags.getLsbD 7⟩

variable {v w : U8} {handlerAddress : U64} {selector : U16} {flags ist : U8} {idt : U8 → IDTEntry}
  {address : Stub → U64}

/-- The three parts of an address make it up again. -/
theorem offset_split (x : U64) :
    (x >>> 32 &&& 0xFFFFFFFF).setWidth 32 ++ (x >>> 16 &&& 0xFFFF).setWidth 16 ++
      (x &&& 0xFFFF).setWidth 16 = x := by
  have ones₃₂ : (0xFFFFFFFF : U64) = BitVec.ofNat 64 (2 ^ 32 - 1) := rfl
  have ones₁₆ : (0xFFFF : U64) = BitVec.ofNat 64 (2 ^ 16 - 1) := rfl
  rw [ones₃₂, ones₁₆, BitFields.setWidth_and_ones _ (Nat.le_refl 32),
    BitFields.setWidth_and_ones _ (Nat.le_refl 16), BitFields.setWidth_and_ones _ (Nat.le_refl 16)]
  apply BitVec.eq_of_getLsbD_eq
  intro i hi
  simp only [BitVec.getLsbD_append, BitVec.getLsbD_setWidth, BitVec.getLsbD_ushiftRight]
  grind

theorem gate_set : (setIDTEntry v handlerAddress selector flags ist idt w).gate =
    if w = v then gateTo handlerAddress selector flags ist else (idt w).gate := by
  rw [setIDTEntry, Function.update_apply]
  split_ifs
  · have ones₃ : (0b111 : U8) = BitVec.ofNat 8 (2 ^ 3 - 1) := rfl
    have number : (ist &&& 0b111).setWidth 3 = ist.setWidth 3 := by
      rw [ones₃, BitFields.setWidth_and_ones ist (Nat.le_refl 3)]
    rw [IDTEntry.gate, gateTo, number]
    exact congrArg (fun offset => Gate.mk offset ..) (offset_split handlerAddress)
  · rfl

/-- A loop that writes the same gate to every vector. -/
theorem gate_fill (n : Nat) : ((List.range n).foldl (fun idt i =>
    setIDTEntry (BitVec.ofNat 8 i) handlerAddress selector flags ist idt) idt v).gate =
      if v.toNat < n then gateTo handlerAddress selector flags ist else (idt v).gate := by
  induction n with
  | zero => rfl
  | succ n ih =>
    rw [List.range_succ, List.foldl_append, List.foldl_cons, List.foldl_nil, gate_set, ih]
    by_cases last : v = BitVec.ofNat 8 n
    · have le : v.toNat < n + 1 := by
        rw [last, BitVec.toNat_ofNat]
        exact Nat.lt_succ_of_le (Nat.mod_le ..)
      rw [if_pos last, if_pos le]
    · have other : v.toNat ≠ n := fun eq => last (by rw [← eq, BitVec.ofNat_toNat, BitVec.setWidth_eq])
      have same : v.toNat < n + 1 ↔ v.toNat < n := by omega
      rw [if_neg last, if_congr same rfl rfl]

/-- The stub that an interrupt of the running kernel leads to. -/
def vectorStub (v : U8) : Stub :=
  if v = 0x06 then .invalidOpcode
  else if v = 0x0D then .gpf
  else if v = 0x0E then .pageFault
  else if v = 0x20 then .timer
  else if v = 0x21 then .keyboard
  else if v = 0x28 then .syncTime
  else if v = 0x80 then .isr80
  else .kernelPanic

/-- The vectors whose handlers run on the stack of the interrupted privilege level. -/
def onCurrentStack (v : U8) : Bool := v = 0x0E || v = 0x20 || v = 0x21 || v = 0x80

/-- Every vector has a gate of the kernel's code segment, and a program gets through that of the
system calls only, which is also the only one that leaves interrupts enabled. -/
theorem gate_startup (address : Stub → U64) (idt : U8 → IDTEntry) (v : U8) :
    (kernelStartupIDT address idt v).gate =
      { offset := address (vectorStub v)
        selector := 0x08
        ist := if onCurrentStack v then 0 else if v = 0x28 then 1 else 4
        kind := if v = 0x80 then 0xF else 0xE
        dpl := if v = 0x80 then 3 else 0
        present := true } := by
  have all : v.toNat < 256 := v.isLt
  simp only [kernelStartupIDT, gate_set, gate_fill, if_pos all]
  by_cases own : v ∈ [0x06, 0x0D, 0x0E, 0x20, 0x21, 0x28, 0x80]
  · simp only [List.mem_cons, List.not_mem_nil, or_false] at own
    rcases own with rfl | rfl | rfl | rfl | rfl | rfl | rfl <;> rfl
  · simp only [List.mem_cons, List.not_mem_nil, or_false, not_or] at own
    obtain ⟨h₁, h₂, h₃, h₄, h₅, h₆, h₇⟩ := own
    simp only [vectorStub, onCurrentStack, gateTo, h₁, h₂, h₃, h₄, h₅, h₆, h₇, if_false, decide_false,
      Bool.or_false, Bool.false_eq_true]
    rfl

/-- The drives take no gate to themselves that programs get through; on the vector `0x80` the line of
the AHCI controller would close the one for system calls. -/
theorem dpl_drives (address : Stub → U64) (line : U8) (idt : U8 → IDTEntry) (v : U8) :
    (ahciInitIDT address line (floppyInitIDT address (kernelStartupIDT address idt)) v).gate.dpl =
      if v = 0x80 ∧ v ≠ line + 0x20 then 3 else 0 := by
  have all : v.toNat < 256 := v.isLt
  have dpl {c : Prop} [Decidable c] (g h : Gate) : (if c then g else h).dpl = if c then g.dpl else h.dpl :=
    apply_ite Gate.dpl c g h
  simp only [ahciInitIDT, floppyInitIDT, kernelStartupIDT, gate_set, gate_fill, if_pos all, dpl]
  by_cases taken : v = line + 0x20
  · rw [if_pos taken, if_neg fun both => both.2 taken]
    rfl
  · simp only [and_iff_left taken, if_neg taken]
    by_cases call : v = 0x80
    · rw [call]
      rfl
    · simp only [if_neg call]
      split_ifs <;> rfl

end ChudOS
