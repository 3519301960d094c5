import ChudOS.Library.Transition
import ChudOS.Devices.Keyboard
import ChudOS.Userland.Syscall

/-!
# Interrupts

The kernel as a transition system. An interrupt enters through its stub, which pushes a frame,
calls the handler and pops the frame the handler leaves there. Between interrupts the current task
runs: it may change any word of RAM, which is more than its address space lets it reach. A handler
runs to its end before the next interrupt is taken. Where it touches a page that is not mapped, and
would take a page fault of its own, there is no step.
-/

namespace ChudOS

open Transition

/-- Why the CPU enters the kernel. A fatal exception takes the garbage `ErrToInt` leaves in the
error code along, the keyboard what its two ports show. -/
inductive Cause where
  | timer
  | syscall
  | pageFault
  | generalProtection (uninitialized : U64)
  | invalidOpcode (uninitialized : U64)
  | keyboard (status scancode : U8)
deriving DecidableEq

/-- One entry into the kernel; `fuel` bounds the loops of the handler over tables and strings. -/
structure Interrupt where
  cause : Cause
  frame : InterruptRegisters
  dev : Devices
  fuel : Nat

/-- The handler the stub calls. -/
def handleInterrupt (k : Kernel) (i : Interrupt) : Option (Kernel × InterruptRegisters) :=
  match i.cause with
  | .timer => timerInterrupt i.fuel k i.frame
  | .syscall => handleSyscall i.fuel i.dev k i.frame
  | .pageFault => handlePageFault i.fuel k i.frame
  | .generalProtection garbage => generalProtectionFault k i.frame garbage
  | .invalidOpcode garbage => invalidOpcode k i.frame garbage
  | .keyboard status scancode => handleKeyboardInterrupt k i.frame status scancode

/-- The handler touches a page that is not mapped, such as one of the caller's buffer, or does not
come to its end. -/
def FaultsInside (k : Kernel) (i : Interrupt) : Prop := handleInterrupt k i = none

/-- What the stub pops off the frame the handler left. `invalid_opcode_stub` lacks the
`addq $8, %rsp` of its siblings, so that `iretq` takes the error code for `rip`. -/
def stubPops (cause : Cause) (frame : InterruptRegisters) : InterruptRegisters :=
  match cause with
  | .invalidOpcode _ =>
    { frame with
      rip := frame.errorCode
      cs := frame.rip
      rflags := frame.cs
      rsp := frame.rflags
      ss := frame.rsp }
  | _ => frame

/-- The part of a frame that `pop_regs` and `iretq` load. -/
def context (frame : InterruptRegisters) : InterruptRegisters :=
  { frame with intNo := 0, cr2 := 0, errorCode := 0 }

inductive Event where
  | interrupt (i : Interrupt)
  | user (ram : Nat → Nat → U64)

inductive KernelStep : Kernel → Event → Kernel → Prop
  | interrupt {k k' : Kernel} {i : Interrupt} {frame : InterruptRegisters} :
      handleInterrupt k i = some (k', frame) → KernelStep k (.interrupt i) k'
  | user (k : Kernel) (ram : Nat → Nat → U64) :
      KernelStep k (.user ram) { k with mem := { k.mem with ram := ram } }

/-- The first `task_switch` leaves the idle task, in slot 0, for the first ready task. -/
def FirstSwitch (k : Kernel) : Prop :=
  ∃ k₀ frame, k₀.curPid = 0 ∧ (k₀.taskManager 0).exist = true ∧
    k = (taskSwitch k₀ (findNextTask k₀ 0) frame).1

/-- The kernel after its first `task_switch`. -/
def kernelSystem : LTS Kernel Event where
  init := FirstSwitch
  step := KernelStep

end ChudOS
