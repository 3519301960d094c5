import ChudOS.Library.Loop
import ChudOS.LowLevel.Memory

/-!
# Page tables of the boot loader

The part of `boot2.s` that fills the page tables: five functions, each with a loop over `edi`, `eax`
and `ecx` in which `edx` is zero. RAM is that of the kernel, by frame and quadword, and the stack is
in it. The 66 tables take more room than there is between the loader and the video memory, which
keeps what is written to it to itself.
-/

namespace ChudOS.Boot2

/-- The frame is part of the video memory. -/
def videoMemory (f : Nat) : Prop := 0xA0 ≤ f ∧ f < 0xC0

instance (f : Nat) : Decidable (videoMemory f) := inferInstanceAs (Decidable (_ ∧ _))

/-- A dword at an address that is a multiple of four. -/
def storeDword (ram : Nat → Nat → U64) (address x : U32) : Nat → Nat → U64 :=
  let f := address.toNat / 0x1000
  let i := address.toNat % 0x1000 / 8
  let low : U32 := (ram f i).setWidth 32
  let high : U32 := (ram f i >>> 32).setWidth 32
  if videoMemory f then ram
  else Function.update ram f
    (Function.update (ram f) i (if address.toNat % 8 < 4 then high ++ x else x ++ low))

/-- The dword at such an address, in RAM. -/
def loadDword (ram : Nat → Nat → U64) (address : U32) : U32 :=
  let x := ram (address.toNat / 0x1000) (address.toNat % 0x1000 / 8)
  if address.toNat % 8 < 4 then x.setWidth 32 else (x >>> 32).setWidth 32

/-- The registers of a loop. -/
structure Fill where
  edi : U32
  eax : U32
  ecx : U32
  esp : U32
  ram : Nat → Nat → U64

def Fill.push (x : U32) (s : Fill) : Fill :=
  { s with esp := s.esp - 4, ram := storeDword s.ram (s.esp - 4) x }

def Fill.popEax (s : Fill) : Fill :=
  { s with eax := loadDword s.ram s.esp, esp := s.esp + 4 }

/-- `mov [edi], eax` and `mov [edi+4], edx`, with the flags in `eax`, which is kept on the stack. -/
def Fill.put (s : Fill) : Fill :=
  let s := s.push s.eax
  let s := { s with eax := s.eax ||| 0b00000011 }
  let s := { s with ram := storeDword (storeDword s.ram s.edi s.eax) (s.edi + 4) 0 }
  s.popEax

/-- A round of a loop, for the distance between two entries and the change of the counter. -/
def Fill.round (distance : U32) (count : U32 → U32) (s : Fill) : Fill :=
  let s := s.put
  { s with edi := s.edi + 8, eax := s.eax + distance, ecx := count s.ecx }

def Fill.loop (distance last : U32) (count : U32 → U32) (rounds : Nat) (s : Fill) : Option Fill :=
  Loop.run (fun s : Fill => s.ecx = last) (Fill.round distance count) rounds s

/-- `call`, which leaves the address of the next instruction for `ret`. With another one there the
function does not come back. -/
def Fill.call (next : U32) (function : Fill → Option Fill) (s : Fill) : Option Fill := do
  let s ← function (s.push next)
  if loadDword s.ram s.esp = next then some { s with esp := s.esp + 4 } else none

/-- The tables follow each other: `pml4_table`, `pdpt_kernel`, `pd_table_kernel` and `pt`. -/
structure Labels where
  pml4Table : U32

namespace Labels

variable (l : Labels)

def pdptKernel : U32 := l.pml4Table + 0x1000

def pdTableKernel : U32 := l.pdptKernel + 0x1000

def pt : U32 := l.pdTableKernel + 0x1000

end Labels

variable (rounds : Nat) (l : Labels)

def fillPt (s : Fill) : Option Fill :=
  Fill.loop 0x1000 32768 (· + 1) rounds { s with edi := l.pt, eax := 0, ecx := 0 }

def fillPd (s : Fill) : Option Fill :=
  Fill.loop 4096 64 (· + 1) rounds { s with edi := l.pdTableKernel, eax := l.pt, ecx := 0 }

/-- The first entry is written before the loop, which writes it again. -/
def fillPdpt (s : Fill) : Option Fill :=
  Fill.loop 8 0 (· - 1) rounds
    (Fill.put { s with edi := l.pdptKernel, eax := l.pdTableKernel, ecx := 1 })

def fillPml4L (s : Fill) : Option Fill :=
  Fill.loop 0x1000 0 (· - 1) rounds
    (Fill.put { s with edi := l.pml4Table, eax := l.pdptKernel, ecx := 1 })

def fillPml4H (s : Fill) : Option Fill :=
  Fill.loop 0x1000 0 (· - 1) rounds
    (Fill.put { s with edi := l.pml4Table + 2048, eax := l.pdptKernel, ecx := 1 })

/-- The calls of `start_paging64`, each with the address of the instruction after it. -/
def fillTables (next : Nat → U32) (s : Fill) : Option Fill := do
  let s ← s.call (next 0) (fillPt rounds l)
  let s ← s.call (next 1) (fillPd rounds l)
  let s ← s.call (next 2) (fillPdpt rounds l)
  let s ← s.call (next 3) (fillPml4L rounds l)
  s.call (next 4) (fillPml4H rounds l)

end ChudOS.Boot2
