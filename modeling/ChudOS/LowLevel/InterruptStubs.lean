import ChudOS.Interrupts
import ChudOS.Library.WordStack

/-!
# Interrupt stubs

`interrupt_stubs.s`, instruction by instruction. Jumps go forward, to the next label with their
number. The stack is read and written in whole words. Of the flags only the one for zero is kept:
no other one is tested, and `iretq` replaces them all.
-/

namespace ChudOS

namespace Stub

inductive Register
  | rax | rcx | rdx | rbx | rsp | rbp | rsi | rdi
  | r8 | r9 | r10 | r11 | r12 | r13 | r14 | r15
  deriving DecidableEq

/-- The operands are in the order of the source; an offset is one from `rsp`. -/
inductive Instruction
  | pushq (src : Register)
  | pushqImmediate (x : U64)
  | pushqMemory (offset : U64)
  | popq (dst : Register)
  | movq (src dst : Register)
  | movqCr2 (dst : Register)
  | movqMemory (offset : U64) (dst : Register)
  | addq (x : U64) (dst : Register)
  | andq (x : U64) (dst : Register)
  | cmpq (x : U64) (r : Register)
  | cmpqMemory (x offset : U64)
  | cld
  | cli
  | sti
  | label (n : Nat)
  | jne (n : Nat)
  | jmp (n : Nat)
  | callq
  | iretq
  deriving DecidableEq

structure Cpu where
  reg : Register → U64
  cr2 : U64
  zero : Bool
  mem : U64 → U64

namespace Cpu

def set (s : Cpu) (r : Register) (x : U64) : Cpu := { s with reg := Function.update s.reg r x }

def word (s : Cpu) (offset : U64) : U64 := s.mem (s.reg .rsp + offset)

def push (s : Cpu) (x : U64) : Cpu :=
  { s.set .rsp (s.reg .rsp - 8) with mem := Function.update s.mem (s.reg .rsp - 8) x }

end Cpu

/-- What an instruction does that is neither a jump nor the end of a part of the stub. -/
def Instruction.run (s : Cpu) : Instruction → Cpu
  | pushq src => s.push (s.reg src)
  | pushqImmediate x => s.push x
  | pushqMemory offset => s.push (s.word offset)
  | popq dst => (s.set .rsp (s.reg .rsp + 8)).set dst (s.word 0)
  | movq src dst => s.set dst (s.reg src)
  | movqCr2 dst => s.set dst s.cr2
  | movqMemory offset dst => s.set dst (s.word offset)
  | addq x dst => { s.set dst (s.reg dst + x) with zero := decide (s.reg dst + x = 0) }
  | andq x dst => { s.set dst (s.reg dst &&& x) with zero := decide (s.reg dst &&& x = 0) }
  | cmpq x r => { s with zero := decide (s.reg r = x) }
  | cmpqMemory x offset => { s with zero := decide (s.word offset = x) }
  | _ => s

/-- Runs up to the call of the handler or to `iretq`, and returns what comes behind. With a label, the
instructions before it are passed over. -/
def exec : List Instruction → Option Nat → Cpu → List Instruction × Cpu
  | [], _, s => ([], s)
  | i :: code, some n, s => exec code (if i = .label n then none else some n) s
  | .callq :: code, none, s => (code, s)
  | .iretq :: code, none, s => (code, s)
  | .jne n :: code, none, s => exec code (if s.zero then none else some n) s
  | .jmp n :: code, none, s => exec code (some n) s
  | i :: code, none, s => exec code none (i.run s)

/-! ## The source -/

open Instruction Register

/-- The registers in the order of `push_regs`. -/
def saved : List Register :=
  [rax, rcx, rdx, rbx, rbp, rsi, rdi, r8, r9, r10, r11, r12, r13, r14, r15]

def pushRegs : List Instruction := saved.map pushq ++ [cld]

def popRegs : List Instruction := saved.reverse.map popq

/-- The offset 8 is that of `rip`, not of `cs`. -/
def checkCpl : List Instruction :=
  [pushq rax, movqMemory 8 rax, andq 3 rax, cmpq 0 rax, jne 2, cmpqMemory 0x08 8, jne 2,
    label 1, pushqImmediate 0x10, pushq rsp, pushqMemory 32, pushqMemory 32, pushqMemory 32, jmp 3,
    label 2, popq rax, jmp 4, label 3, movqMemory 0x28 rax, label 4]

/-- The offset 8 is that of the error code. -/
def checkCplErr : List Instruction :=
  [pushq rax, movqMemory 8 rax, andq 3 rax, cmpq 0 rax, jne 2, cmpqMemory 0x08 8, jne 2,
    label 1, pushqImmediate 0x10, pushq rsp, pushqMemory 40, pushqMemory 40, pushqMemory 40,
    pushqMemory 40, jmp 3, label 2, popq rax, jmp 4, label 3, movqMemory 0x30 rax, label 4]

/-- What the stubs have in common, from `push_regs` to `pop_regs`. -/
def callHandler (number : U64) (leave : List Instruction) : List Instruction :=
  pushRegs ++ [movqCr2 rax, pushq rax, pushqImmediate number, movq rsp rdi, callq, addq 16 rsp] ++
    popRegs ++ leave

def skipErrorCode : List Instruction := [addq 8 rsp, iretq]

end Stub

inductive Stub
  | isr80 | kernelPanic | invalidOpcode | gpf | pageFault | timer | syncTime | keyboard | ahci
  | floppyDrive
  deriving DecidableEq

namespace Stub

open Instruction

def isr80Stub : List Instruction :=
  checkCpl ++ pushqImmediate 0 :: callHandler 0x80 skipErrorCode

def kernelPanicStub : List Instruction :=
  checkCpl ++ pushqImmediate 0 :: callHandler 0x81 skipErrorCode

def invalidOpcodeStub : List Instruction :=
  checkCpl ++ pushqImmediate 0 :: callHandler 0x06 [iretq]

def gpfStub : List Instruction :=
  cli :: cld :: checkCplErr ++ callHandler 0x0D [addq 8 .rsp, sti, iretq]

def pageFaultStub : List Instruction := checkCplErr ++ callHandler 0x0E skipErrorCode

def timerInterruptStub : List Instruction :=
  checkCpl ++ pushqImmediate 0 :: callHandler 0x00 skipErrorCode

def syncTimeStub : List Instruction := checkCpl ++ callHandler 0x28 [iretq]

def keyboardStub : List Instruction :=
  checkCpl ++ pushqImmediate 0 :: callHandler 0x00 skipErrorCode

def ahciInterruptStub : List Instruction := cld :: checkCpl ++ callHandler 0x00 [iretq]

def floppyDriveStub : List Instruction :=
  cld :: checkCpl ++ pushqImmediate 0 :: callHandler 0x06 skipErrorCode

def code : Stub → List Instruction
  | isr80 => isr80Stub
  | kernelPanic => kernelPanicStub
  | invalidOpcode => invalidOpcodeStub
  | gpf => gpfStub
  | pageFault => pageFaultStub
  | timer => timerInterruptStub
  | syncTime => syncTimeStub
  | keyboard => keyboardStub
  | ahci => ahciInterruptStub
  | floppyDrive => floppyDriveStub

/-! ## The processor -/

/-- The processor pushes an error code for these two. -/
def hasErrorCode : Stub → Bool
  | gpf | pageFault => true
  | _ => false

/-- What the processor pushes, the last word first. -/
def pushed (stub : Stub) (f : InterruptRegisters) : List U64 :=
  (if stub.hasErrorCode then [f.errorCode] else []) ++ [f.rip, f.cs, f.rflags, f.rsp, f.ss]

/-- The value of a register in the interrupted program. -/
def register (f : InterruptRegisters) : Register → U64
  | .rax => f.rax
  | .rcx => f.rcx
  | .rdx => f.rdx
  | .rbx => f.rbx
  | .rsp => f.rsp
  | .rbp => f.rbp
  | .rsi => f.rsi
  | .rdi => f.rdi
  | .r8 => f.r8
  | .r9 => f.r9
  | .r10 => f.r10
  | .r11 => f.r11
  | .r12 => f.r12
  | .r13 => f.r13
  | .r14 => f.r14
  | .r15 => f.r15

/-- The processor at the first instruction of a stub: an interrupt of the program with the registers
`f` has made it push words below `top`. -/
def enter (stub : Stub) (f : InterruptRegisters) (top : U64) (mem : U64 → U64) : Cpu :=
  (stub.pushed f).reverse.foldl Cpu.push
    { reg := Function.update (register f) .rsp top, cr2 := f.cr2, zero := false, mem }

/-- The `InterruptRegisters` at an address. -/
def frameAt (mem : U64 → U64) (a : U64) : InterruptRegisters where
  intNo := mem a
  cr2 := mem (a + 0x08)
  r15 := mem (a + 0x10)
  r14 := mem (a + 0x18)
  r13 := mem (a + 0x20)
  r12 := mem (a + 0x28)
  r11 := mem (a + 0x30)
  r10 := mem (a + 0x38)
  r9 := mem (a + 0x40)
  r8 := mem (a + 0x48)
  rdi := mem (a + 0x50)
  rsi := mem (a + 0x58)
  rbp := mem (a + 0x60)
  rbx := mem (a + 0x68)
  rdx := mem (a + 0x70)
  rcx := mem (a + 0x78)
  rax := mem (a + 0x80)
  errorCode := mem (a + 0x88)
  rip := mem (a + 0x90)
  cs := mem (a + 0x98)
  rflags := mem (a + 0xA0)
  rsp := mem (a + 0xA8)
  ss := mem (a + 0xB0)

/-- The registers with which the processor goes on after `iretq`. -/
def Cpu.iretq (s : Cpu) : InterruptRegisters where
  intNo := 0
  cr2 := 0
  r15 := s.reg .r15
  r14 := s.reg .r14
  r13 := s.reg .r13
  r12 := s.reg .r12
  r11 := s.reg .r11
  r10 := s.reg .r10
  r9 := s.reg .r9
  r8 := s.reg .r8
  rdi := s.reg .rdi
  rsi := s.reg .rsi
  rbp := s.reg .rbp
  rbx := s.reg .rbx
  rdx := s.reg .rdx
  rcx := s.reg .rcx
  rax := s.reg .rax
  errorCode := 0
  rip := s.word 0
  cs := s.word 0x08
  rflags := s.word 0x10
  rsp := s.word 0x18
  ss := s.word 0x20

/-- A C function, which returns with the stack pointer it was called with. -/
structure Handler where
  call : Cpu → Cpu
  balanced : ∀ s, (call s).reg .rsp = s.reg .rsp

/-- The processor when a stub calls its handler. -/
def calls (stub : Stub) (s : Cpu) : Cpu := (exec stub.code none s).2

/-- A whole run of a stub, up to the registers it returns with. -/
def run (stub : Stub) (handler : Handler) (s : Cpu) : InterruptRegisters :=
  (exec (exec stub.code none s).1 none (handler.call (stub.calls s))).2.iretq

end Stub

end ChudOS
