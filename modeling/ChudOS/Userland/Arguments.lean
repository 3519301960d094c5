import ChudOS.Userland.Tasks

/-!
# The arguments of a program in memory

`SetupTaskStack` as it finds its arguments: `argv` is the address of an array of pointers, and all
reads and writes are in the address space of the task. `setupTaskStack` is given the strings.
-/

namespace ChudOS

/-- `argv[i][j]`. -/
def argumentByte (m : Memory) (argv : U64) (i j : Nat) : Option U8 := do
  let pointer ← load64 m (argv + BitVec.ofNat 64 (8 * i))
  loadByte m (pointer + BitVec.ofNat 64 j)

/-- The loop that counts the bytes of `argv[i]`, from `len` on. -/
def argumentLength (m : Memory) (argv : U64) (i : Nat) : Nat → Nat → Option Nat
  | 0, _ => none
  | fuel + 1, len => do
    let b ← argumentByte m argv i len
    if b = 0 then some len else argumentLength m argv i fuel (len + 1)

/-- The first `j` bytes of `argv[i]`, last one first, each to the byte below `stack`. -/
def pushArgument (argv : U64) (i : Nat) : Nat → Memory → U64 → Option (Memory × U64)
  | 0, m, stack => some (m, stack)
  | j + 1, m, stack => do
    let b ← argumentByte m argv i j
    let m ← storeByte m (stack - 1) b
    pushArgument argv i j m (stack - 1)

/-- The loop over the arguments, last one first, `n` of them from number `i` on. -/
def pushArguments (fuel : Nat) (m : Memory) (argv stack : U64) :
    Nat → Nat → Option (Memory × U64 × List U64)
  | _, 0 => some (m, stack, [])
  | i, n + 1 => do
    let (m, stack, pointers) ← pushArguments fuel m argv stack (i + 1) n
    let len ← argumentLength m argv i fuel 0
    let (m, stack) ← pushArgument argv i (len + 1) m stack
    some (m, stack, stack :: pointers)

/-- `SetupTaskStack(pid, argv, argc)`. -/
def setupTaskStackAt (fuel : Nat) (k : Kernel) (pid : Nat) (argv : U64) (argc : Nat) :
    Option Kernel := do
  let task := k.taskManager pid
  let lastPml4 := k.mem.paging.pml4Physical
  let lastPid := k.curPid
  let k := k.enter pid
  let (m, stack, pointers) ← pushArguments fuel k.mem argv task.savedRegisters.rsp 0 argc
  let (m, stack) ← pushWords m stack (pointers ++ [0])
  let stack := stack - 8
  let m ← store64 m stack (BitVec.ofNat 64 argc)
  let k := { k with mem := m }.setRegisters pid { task.savedRegisters with rsp := stack }
  some { k.setCr3 lastPml4 with curPid := lastPid }

end ChudOS
