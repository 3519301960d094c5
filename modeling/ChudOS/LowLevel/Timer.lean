import ChudOS.Userland.Tasks

/-!
# The scheduler and the timer interrupt

`Timer.c`. A handler takes the frame its stub pushed and returns the frame the stub pops.
-/

namespace ChudOS

/-- Saves the frame in the current task, then takes address space, frame and TSS from `pid`. -/
def taskSwitch (k : Kernel) (pid : Nat) (frame : InterruptRegisters) :
    Kernel × InterruptRegisters :=
  let k := k.setRegisters k.curPid frame
  let task := k.taskManager pid
  let k := { k with curPid := pid }.setCr3 task.basePML4
  ({ k with activeTSS := task.userTSS }, task.savedRegisters)

/-- The next ready task above `curPid`; slot 0 is the idle task. -/
def findNextTask (k : Kernel) (curPid : Nat) : Nat :=
  if curPid = 511 then 0
  else
    ((List.range 512).find? fun i =>
      decide (curPid < i) && (k.taskManager i).exist &&
        (k.taskManager i).processState == .ready).getD 0

/-- The record `ForceSwitch` leaves of the task it takes the CPU from: nothing of a killed one. -/
def descheduled (t : Task) : Task :=
  if t.processState = .kill then zeroTask else { t with usedTicks := 0 }

/-- Gives the CPU to the next task. The memory of a killed one is not freed. -/
def forceSwitch (k : Kernel) (frame : InterruptRegisters) : Kernel × InterruptRegisters :=
  let cur := k.curPid
  let k := k.setTask cur (descheduled (k.taskManager cur))
  let next := findNextTask k cur
  taskSwitch (k.setRegisters cur frame) next frame

/-- The timer's way to end a task: the slot becomes free, then the memory. -/
def retireKilled (fuel : Nat) (k : Kernel) (pid : Nat) : Option Kernel :=
  let t := k.taskManager pid
  if t.processState = .kill then
    freeTaskMemory fuel (k.setTask pid { t with processState := .null, exist := false }) pid
  else some k

def timerInterrupt (fuel : Nat) (k : Kernel) (frame : InterruptRegisters) :
    Option (Kernel × InterruptRegisters) :=
  let cur := k.curPid
  if (k.taskManager cur).processState = .creation then some (k, frame)
  else
    let k := k.setRegisters cur frame
    let t := k.taskManager cur
    if t.maxTicks ≤ t.usedTicks ∨ t.processState = .kill ∨ t.processState = .waiting then do
      let k ← retireKilled fuel (k.setTask cur { t with usedTicks := 0 }) cur
      some (taskSwitch k (findNextTask k cur) frame)
    else some (k.setTask cur { t with usedTicks := t.usedTicks + 1 }, frame)

end ChudOS
