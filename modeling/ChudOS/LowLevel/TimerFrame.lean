import ChudOS.LowLevel.Timer
import ChudOS.Userland.TasksFrame

/-!
# What a task switch does

Both ways to switch, the timer's and `ForceSwitch`, end in `task_switch` and share one
specification, `Switched`.
-/

namespace ChudOS

/-- The paging registers select the address space of the current task. -/
def AddressSpaceCurrent (k : Kernel) : Prop :=
  k.mem.paging.cr3 = (k.taskManager k.curPid).basePML4 ∧
    k.mem.paging.pml4Physical = (k.taskManager k.curPid).basePML4

/-- In `k'` the task `cur` has been switched out with `frame` saved for it, and the frame `popped`
continues the next one. -/
structure Switched (cur : Nat) (frame : InterruptRegisters) (k' : Kernel)
    (popped : InterruptRegisters) : Prop where
  space : AddressSpaceCurrent k'
  tss : k'.activeTSS = (k'.taskManager k'.curPid).userTSS
  popped : popped = (k'.taskManager k'.curPid).savedRegisters
  saved : (k'.taskManager cur).savedRegisters = frame
  next : k'.curPid = 0 ∨ (k'.taskManager k'.curPid).exist = true

variable {k : Kernel} {frame : InterruptRegisters}

/-- The scheduler picks a task that exists, or the idle task. -/
theorem findNextTask_spec (k : Kernel) (cur : Nat) :
    findNextTask k cur = 0 ∨
      cur < findNextTask k cur ∧ (k.taskManager (findNextTask k cur)).exist = true := by
  unfold findNextTask
  split
  · exact .inl rfl
  · cases h : (List.range 512).find? fun i =>
        decide (cur < i) && (k.taskManager i).exist && (k.taskManager i).processState == .ready with
    | none => exact .inl rfl
    | some n =>
      have found := List.find?_some h
      simp only [Bool.and_eq_true, decide_eq_true_eq] at found
      exact .inr ⟨found.1.1, found.1.2⟩

theorem taskSwitch_exist (k : Kernel) (pid : Nat) (frame : InterruptRegisters) (p : Nat) :
    ((taskSwitch k pid frame).1.taskManager p).exist = (k.taskManager p).exist :=
  k.setRegisters_exist k.curPid frame p

theorem taskSwitch_switched {pid : Nat} (h : pid = 0 ∨ (k.taskManager pid).exist = true) :
    Switched k.curPid frame (taskSwitch k pid frame).1 (taskSwitch k pid frame).2 where
  space := ⟨rfl, rfl⟩
  tss := rfl
  popped := rfl
  saved := k.setRegisters_savedRegisters k.curPid frame
  next := h.imp_right (taskSwitch_exist k pid frame pid).trans

theorem forceSwitch_exist (k : Kernel) (frame : InterruptRegisters) (p : Nat) :
    ((forceSwitch k frame).1.taskManager p).exist =
      if p = k.curPid ∧ (k.taskManager p).processState = .kill then false
      else (k.taskManager p).exist := by
  unfold forceSwitch descheduled
  rw [taskSwitch_exist, Kernel.setRegisters_exist]
  by_cases hp : p = k.curPid
  · subst hp
    rw [Kernel.setTask_self]
    by_cases hk : (k.taskManager k.curPid).processState = .kill <;> simp [hk, zeroTask]
  · rw [Kernel.setTask_of_ne _ _ _ hp, if_neg fun h => hp h.1]

theorem forceSwitch_switched (k : Kernel) (frame : InterruptRegisters) :
    Switched k.curPid frame (forceSwitch k frame).1 (forceSwitch k frame).2 := by
  let k₁ := k.setTask k.curPid (descheduled (k.taskManager k.curPid))
  refine taskSwitch_switched (k := k₁.setRegisters k.curPid frame) ?_
  rw [Kernel.setRegisters_exist]
  exact (findNextTask_spec k₁ k.curPid).imp_right And.right

end ChudOS
