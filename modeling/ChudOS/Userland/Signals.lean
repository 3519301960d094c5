import ChudOS.Userland.Tasks

/-!
# Signals

A signal handler runs on the stack of the interrupted task, above a frame of sixteen saved
registers. `r12` keeps the address of that frame until `sigret`.
-/

namespace ChudOS

/-- The registers `EstablishSignalStack` pushes, in that order. `r8` is not among them, and the
`rsp` saved is the value before the first push. -/
def signalFrame (r : InterruptRegisters) : List U64 :=
  [r.rsp, r.rip, r.rax, r.rbx, r.rcx, r.rdx, r.rbp, r.rdi, r.rsi, r.r9, r.r10, r.r11, r.r12, r.r13,
    r.r14, r.r15]

def taskStackPushAll (k : Kernel) (pid : Nat) : List U64 → Option Kernel
  | [] => some k
  | x :: xs => do
    let k ← taskStackPush k pid x
    taskStackPushAll k pid xs

def taskStackPopAll (k : Kernel) (pid : Nat) : Nat → Option (Kernel × List U64)
  | 0 => some (k, [])
  | n + 1 => do
    let (k, x) ← taskStackPop k pid
    let (k, xs) ← taskStackPopAll k pid n
    some (k, x :: xs)

/-- Whether the task is current is decided by its `ProcessID` field, which only `fork` sets. -/
def establishSignalStack (k : Kernel) (pid : Nat) : Option Kernel :=
  let task := k.taskManager pid
  if task.exist then do
    let isCurrent := task.processID = k.curPid
    let last := k.mem.paging.pml4Physical
    let k := if isCurrent then k else k.setCr3 task.basePML4
    let k := k.setState pid .creation
    let k ← taskStackPushAll k pid (signalFrame task.savedRegisters)
    let r := (k.taskManager pid).savedRegisters
    let k := k.setRegisters pid { r with r12 := r.rsp }
    let k := if isCurrent then k else k.setCr3 last
    some (k.setState pid .ready)
  else some k

/-- The register each popped word goes to: the reverse of `signalFrame`. -/
def restoreSignalFrame (r : InterruptRegisters) (popped : Nat → U64) : InterruptRegisters :=
  { r with
    r15 := popped 0
    r14 := popped 1
    r13 := popped 2
    r12 := popped 3
    r11 := popped 4
    r10 := popped 5
    r9 := popped 6
    rsi := popped 7
    rdi := popped 8
    rbp := popped 9
    rdx := popped 10
    rcx := popped 11
    rbx := popped 12
    rax := popped 13
    rip := popped 14
    rsp := popped 15 }

def signalReturn (k : Kernel) (pid : Nat) : Option Kernel :=
  let task := k.taskManager pid
  if task.exist then do
    let isCurrent := pid = k.curPid
    let last := k.mem.paging.pml4Physical
    let k := if isCurrent then k else k.setCr3 task.basePML4
    let k := k.setState pid .creation
    let k := k.setRegisters pid { task.savedRegisters with rsp := task.savedRegisters.r12 }
    let (k, popped) ← taskStackPopAll k pid 16
    let r := (k.taskManager pid).savedRegisters
    let k := k.setRegisters pid (restoreSignalFrame r fun i => popped.getD i 0)
    let k := if isCurrent then k else k.setCr3 last
    some (k.setState pid .ready)
  else some k

def sendSignal (k : Kernel) (pid : Nat) (ident : U32) (arg0 arg1 arg2 arg3 : U64) :
    Option Kernel :=
  let task := k.taskManager pid
  let signal := task.signals ident.toNat
  if task.exist = false ∨ signal.registered = false then some k
  else
    let k := k.setState pid .creation
    if memAccessOk k signal.entry pid then do
      let k ← establishSignalStack k pid
      let r := (k.taskManager pid).savedRegisters
      let k := k.setRegisters pid
        { r with rdi := arg0, rsi := arg1, rdx := arg2, rcx := arg3, rip := signal.entry }
      some (k.setState pid .ready)
    else some k

def registerSignal (k : Kernel) (pid : Nat) (ident : U32) (entry : U64) : Kernel :=
  let task := k.taskManager pid
  if task.exist && memAccessOk k entry pid then
    k.setTask pid { task with signals := Function.update task.signals ident.toNat ⟨true, entry⟩ }
  else k

end ChudOS
