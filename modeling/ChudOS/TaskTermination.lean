import ChudOS.ContextSwitch

/-!
# How tasks end

Five events end a task: `EXIT`, a page fault outside the task's regions, the two fatal exceptions
and a timer interrupt that finds it killed. The handlers that free memory are run with a log of the
tasks `free_task_memory` was called for; without the log they are the handlers of the kernel.

## Main definitions

* `handleInterruptLog` — a handler, and the tasks it calls `free_task_memory` for.
* `Releases` — a kernel, and how often the memory of each task has been freed in its lifetime.
-/

namespace ChudOS

open Transition

variable {k k' : Kernel} {i : Interrupt} {frame : InterruptRegisters} {log : List Nat} {p : Nat}

/-! ## Handlers with a log -/

def freeTaskMemoryLog (fuel : Nat) (k : Kernel) (pid : Nat) : Option (Kernel × List Nat) :=
  (freeTaskMemory fuel k pid).map (·, [pid])

def retireKilledLog (fuel : Nat) (k : Kernel) (pid : Nat) : Option (Kernel × List Nat) :=
  let t := k.taskManager pid
  if t.processState = .kill then
    freeTaskMemoryLog fuel (k.setTask pid { t with processState := .null, exist := false }) pid
  else some (k, [])

/-- `TimerInterrupt` of a task whose time is up, or that does not run any more. -/
def expireLog (fuel : Nat) (k : Kernel) (frame : InterruptRegisters) :
    Option ((Kernel × InterruptRegisters) × List Nat) := do
  let cur := k.curPid
  let k := k.setRegisters cur frame
  let t := k.taskManager cur
  let (k, log) ← retireKilledLog fuel (k.setTask cur { t with usedTicks := 0 }) cur
  some (taskSwitch k (findNextTask k cur) frame, log)

/-- The kill branch of `HandlePageFault`. -/
def faultKillLog (fuel : Nat) (k : Kernel) (regs : InterruptRegisters) :
    Option ((Kernel × InterruptRegisters) × List Nat) := do
  let cur := k.curPid
  let k := killTask (k.setRegisters cur regs) cur
  let k := signalOwner k (k.taskManager cur) childWaitExit (-1)
  let (k, log) ← freeTaskMemoryLog fuel k cur
  some (forceSwitch k regs, log)

/-- The timer interrupt takes the CPU from the current task. -/
def Expires (t : Task) : Prop :=
  t.processState ≠ .creation ∧
    (t.maxTicks ≤ t.usedTicks ∨ t.processState = .kill ∨ t.processState = .waiting)

instance (t : Task) : Decidable (Expires t) :=
  inferInstanceAs (Decidable (_ ∧ _))

/-- A handler, with the tasks it calls `free_task_memory` for, in order. -/
def handleInterruptLog (k : Kernel) (i : Interrupt) :
    Option ((Kernel × InterruptRegisters) × List Nat) :=
  match i.cause with
  | .timer =>
    if Expires (k.taskManager k.curPid) then expireLog i.fuel k i.frame
    else (handleInterrupt k i).map (·, [])
  | .pageFault =>
    if faultKills (k.taskManager k.curPid).memoryData i.frame.cr2 then faultKillLog i.fuel k i.frame
    else (handleInterrupt k i).map (·, [])
  | _ => (handleInterrupt k i).map (·, [])

theorem freeTaskMemoryLog_fst (fuel : Nat) (k : Kernel) (pid : Nat) :
    (freeTaskMemoryLog fuel k pid).map (·.1) = freeTaskMemory fuel k pid := by
  unfold freeTaskMemoryLog
  cases freeTaskMemory fuel k pid <;> rfl

theorem retireKilledLog_fst (fuel : Nat) (k : Kernel) (pid : Nat) :
    (retireKilledLog fuel k pid).map (·.1) = retireKilled fuel k pid := by
  unfold retireKilledLog retireKilled
  dsimp only
  split_ifs
  · exact freeTaskMemoryLog_fst ..
  · rfl

theorem expireLog_fst {fuel : Nat} (h : Expires (k.taskManager k.curPid)) :
    (expireLog fuel k frame).map (·.1) = timerInterrupt fuel k frame := by
  have same : Expires ((k.setRegisters k.curPid frame).taskManager k.curPid) := by
    simpa [Kernel.setRegisters, Expires] using h
  unfold expireLog timerInterrupt
  dsimp only
  rw [if_neg h.1, if_pos same.2, ← retireKilledLog_fst]
  cases retireKilledLog .. <;> rfl

theorem faultKillLog_fst {fuel : Nat}
    (h : faultKills (k.taskManager k.curPid).memoryData frame.cr2 = true) :
    (faultKillLog fuel k frame).map (·.1) = handlePageFault fuel k frame := by
  unfold faultKillLog handlePageFault
  dsimp only
  rw [Kernel.setRegisters_memoryData, if_pos h, ← freeTaskMemoryLog_fst]
  cases freeTaskMemoryLog .. <;> rfl

/-- Without the log this is the handler. -/
theorem handleInterruptLog_fst (k : Kernel) (i : Interrupt) :
    (handleInterruptLog k i).map (·.1) = handleInterrupt k i := by
  have plain : ((handleInterrupt k i).map (·, ([] : List Nat))).map (·.1) = handleInterrupt k i := by
    cases handleInterrupt k i <;> rfl
  unfold handleInterruptLog
  split
  next hi =>
    split_ifs with expires
    · rw [expireLog_fst expires]
      simp only [handleInterrupt, hi]
    · exact plain
  next hi =>
    split_ifs with kills
    · rw [faultKillLog_fst kills]
      simp only [handleInterrupt, hi]
    · exact plain
  next => exact plain

theorem handled_of_log (h : handleInterruptLog k i = some ((k', frame), log)) :
    handleInterrupt k i = some (k', frame) := by
  rw [← handleInterruptLog_fst, h]
  rfl

/-! ## What the log says -/

/-- The two handlers that free the memory of the task they end. -/
def Retires (i : Interrupt) : Prop := i.cause = .timer ∨ i.cause = .pageFault

theorem freeTaskMemoryLog_cases {fuel pid : Nat}
    (h : freeTaskMemoryLog fuel k pid = some (k', log)) :
    log = [pid] ∧ k'.curPid = pid ∧ k'.taskManager = k.taskManager := by
  simp only [freeTaskMemoryLog, Option.map_eq_some_iff, Prod.mk.injEq] at h
  obtain ⟨k₁, h₁, rfl, rfl⟩ := h
  obtain ⟨cur, tasks, -⟩ := freeTaskMemory_tasks h₁
  exact ⟨rfl, cur, tasks⟩

/-- The timer frees the memory of a killed task, which then does not exist. -/
theorem expireLog_cases {fuel : Nat} (h : expireLog fuel k i.frame = some ((k', frame), log)) :
    (log = [] ∧ (k.taskManager k.curPid).processState ≠ .kill) ∨
      (log = [k.curPid] ∧ (k'.taskManager k.curPid).exist = false) := by
  simp only [expireLog, Option.bind_eq_bind, Option.bind_eq_some_iff, Prod.exists,
    Option.some.injEq, Prod.mk.injEq] at h
  obtain ⟨k₁, log₁, h₁, switched, rfl⟩ := h
  obtain rfl : (taskSwitch k₁ _ i.frame).1 = k' := congrArg Prod.fst switched
  unfold retireKilledLog at h₁
  dsimp only at h₁
  split at h₁
  next =>
    obtain ⟨rfl, -, tasks⟩ := freeTaskMemoryLog_cases h₁
    refine .inr ⟨rfl, ?_⟩
    rw [taskSwitch_exist, tasks, Kernel.setTask_self]
  next alive =>
    cases h₁
    refine .inl ⟨rfl, ?_⟩
    simpa [Kernel.setRegisters] using alive

/-- A killed task is not woken. -/
theorem signalOwner_killed {origin : Task} {reason : U32} {ret : U64}
    (h : (k.taskManager p).processState = .kill) :
    (signalOwner k origin reason ret).taskManager p = k.taskManager p := by
  unfold signalOwner
  dsimp only
  split_ifs with none waits
  · rfl
  · refine Kernel.setTask_of_ne _ _ _ ?_
    rintro rfl
    rw [h] at waits
    cases waits.1
  · rfl

/-- So does the kill branch, whoever is woken meanwhile. -/
theorem faultKillLog_cases {fuel : Nat}
    (h : faultKillLog fuel k i.frame = some ((k', frame), log)) :
    log = [k.curPid] ∧ (k'.taskManager k.curPid).exist = false := by
  simp only [faultKillLog, Option.bind_eq_bind, Option.bind_eq_some_iff, Prod.exists,
    Option.some.injEq, Prod.mk.injEq] at h
  obtain ⟨k₁, log₁, h₁, switched, rfl⟩ := h
  obtain rfl : (forceSwitch k₁ i.frame).1 = k' := congrArg Prod.fst switched
  obtain ⟨rfl, cur, tasks⟩ := freeTaskMemoryLog_cases h₁
  refine ⟨rfl, ?_⟩
  rw [forceSwitch_exist, cur, tasks, signalOwner_killed] <;> simp [killTask, Kernel.setState]

theorem handleInterruptLog_cases (h : handleInterruptLog k i = some ((k', frame), log)) :
    (log = [] ∧ ¬(Retires i ∧ Kills k i)) ∨
      (log = [k.curPid] ∧ Retires i ∧ (k'.taskManager k.curPid).exist = false) := by
  have plain {x : Option (Kernel × InterruptRegisters)}
      (h : x.map (·, ([] : List Nat)) = some ((k', frame), log)) : log = [] := by
    simp only [Option.map_eq_some_iff, Prod.mk.injEq] at h
    obtain ⟨-, -, -, rfl⟩ := h
    rfl
  unfold handleInterruptLog at h
  split at h
  next hi =>
    split at h
    next expires =>
      obtain ⟨rfl, alive⟩ | ⟨rfl, gone⟩ := expireLog_cases h
      · exact .inl ⟨rfl, fun killed => alive (by simpa [Kills, hi] using killed.2)⟩
      · exact .inr ⟨rfl, .inl hi, gone⟩
    next expires =>
      refine .inl ⟨plain h, fun killed => expires ?_⟩
      have state : (k.taskManager k.curPid).processState = .kill := by
        simpa [Kills, hi] using killed.2
      exact ⟨by simp [state], .inr (.inl state)⟩
  next hi =>
    split at h
    next =>
      obtain ⟨rfl, gone⟩ := faultKillLog_cases h
      exact .inr ⟨rfl, .inr hi, gone⟩
    next kills => exact .inl ⟨plain h, fun killed => kills (by simpa [Kills, hi] using killed.2)⟩
  next timer fault =>
    exact .inl ⟨plain h, fun retires => retires.1.elim timer fault⟩

/-! ## Releases in the lifetime of a task -/

/-- `freed p` counts how often the memory of task `p` has been freed since its slot was last
free. -/
structure Releases where
  kernel : Kernel
  freed : Nat → Nat

def Releases.account (a : Releases) (k' : Kernel) (log : List Nat) : Releases where
  kernel := k'
  freed p := (if (a.kernel.taskManager p).exist then a.freed p else 0) + log.count p

inductive ReleaseStep : Releases → Event → Releases → Prop
  | interrupt {a : Releases} {i : Interrupt} {k' : Kernel} {frame : InterruptRegisters}
      {log : List Nat} : handleInterruptLog a.kernel i = some ((k', frame), log) →
      ReleaseStep a (.interrupt i) (a.account k' log)
  | user (a : Releases) (ram : Nat → Nat → U64) : ReleaseStep a (.user ram)
      { a with kernel := { a.kernel with mem := { a.kernel.mem with ram := ram } } }

/-- The kernel from its first `task_switch` on, with the releases counted. -/
def releaseSystem : LTS Releases Event where
  init a := FirstSwitch a.kernel ∧ ∀ p, a.freed p = 0
  step := ReleaseStep

variable {a : Releases}

/-- The memory of a task that exists has not been freed. -/
def Releases.Unfreed (a : Releases) : Prop :=
  ∀ p, (a.kernel.taskManager p).exist = true → a.freed p = 0

theorem Releases.account_freed (h : a.Unfreed) (p : Nat) :
    (a.account k' log).freed p = log.count p := by
  by_cases hp : (a.kernel.taskManager p).exist = true
  · simp [Releases.account, hp, h p hp]
  · simp [Releases.account, hp]

/-- One step: whoever is freed does not exist any more. -/
theorem Releases.Unfreed.step (h : a.Unfreed)
    (handled : handleInterruptLog a.kernel i = some ((k', frame), log)) :
    (a.account k' log).Unfreed := by
  intro p hp
  rw [Releases.account_freed h]
  obtain ⟨rfl, -⟩ | ⟨rfl, -, gone⟩ := handleInterruptLog_cases handled
  · rfl
  · refine List.count_eq_zero.mpr fun member => ?_
    obtain rfl := List.mem_singleton.mp member
    have existing : (k'.taskManager a.kernel.curPid).exist = true := hp
    rw [gone] at existing
    cases existing

theorem reachable_unfreed {ok : Releases → Event → Prop} (h : Reachable releaseSystem ok a) :
    a.Unfreed := by
  refine h.invariant (fun a (ha : FirstSwitch a.kernel ∧ ∀ p, a.freed p = 0) p _ => ha.2 p)
    fun a e a' ha _ (hs : ReleaseStep a e a') => ?_
  cases hs with
  | interrupt handled => exact ha.step handled
  | user => exact ha

/-- Only the current task can end, and only when the interrupt kills it. -/
theorem Outcome.ended (h : Outcome k i k' frame) (existed : (k.taskManager p).exist = true)
    (gone : (k'.taskManager p).exist = false) : p = k.curPid ∧ Kills k i := by
  have survivor {k₁ : Kernel} (survive : Survive k i k₁) (gone : (k₁.taskManager p).exist = false) :
      p = k.curPid ∧ Kills k i := by
    obtain alive | ended := survive p existed
    · rw [gone] at alive
      cases alive
    · exact ended
  cases h with
  | stays hs =>
    have alive := hs.alive p existed
    rw [gone] at alive
    cases alive
  | switches _ _ survive => exact survivor survive gone
  | waits _ _ survive => exact survivor survive (by rwa [Kernel.setRegisters_exist] at gone)
  | fatal _ _ survive => exact survivor survive gone

/-- By the time a task has ended its memory has been freed once, if and only if a timer interrupt
or a page fault ended it. -/
theorem freed_once_iff (reachable : Reachable releaseSystem (fun _ _ => True) a)
    (handled : handleInterruptLog a.kernel i = some ((k', frame), log))
    (existed : (a.kernel.taskManager p).exist = true)
    (gone : (k'.taskManager p).exist = false) :
    (a.account k' log).freed p = 1 ↔ Retires i := by
  rw [Releases.account_freed (reachable_unfreed reachable)]
  obtain ⟨rfl, kills⟩ := (handleInterrupt_outcome (handled_of_log handled)).ended existed gone
  obtain ⟨rfl, survives⟩ | ⟨rfl, retires, -⟩ := handleInterruptLog_cases handled
  · exact ⟨fun once => (nomatch once), fun retires => absurd ⟨retires, kills⟩ survives⟩
  · simp [retires]

/-- The shell, running, with nothing freed yet. -/
def shellReleases : Releases := ⟨shellKernel, fun _ => 0⟩

/-- What a handler with a log answers, when it returns. -/
def answerLog (k : Kernel) (i : Interrupt) : (Kernel × InterruptRegisters) × List Nat :=
  (handleInterruptLog k i).getD ((k, i.frame), [])

theorem handled_answerLog (h : (handleInterruptLog k i).isSome = true) :
    handleInterruptLog k i =
      some (((answerLog k i).1.1, (answerLog k i).1.2), (answerLog k i).2) := by
  obtain ⟨r, hr⟩ := Option.isSome_iff_exists.mp h
  simp [answerLog, hr]

theorem shellReleases_reachable {ok : Releases → Event → Prop} :
    Reachable releaseSystem ok shellReleases :=
  .init ⟨⟨idleKernel, zeroRegisters, rfl, rfl, rfl⟩, fun _ => rfl⟩

/-- The shell touches an address far below its stack. -/
def strayFault : Interrupt := { shellInterrupt .pageFault 0x400010 0 0 with fuel := 8 }

theorem freed_once_stray :
    (shellReleases.account (answerLog shellReleases.kernel strayFault).1.1
      (answerLog shellReleases.kernel strayFault).2).freed 1 = 1 ↔ Retires strayFault :=
  freed_once_iff (a := shellReleases) (i := strayFault) shellReleases_reachable
    (handled_answerLog (by decide +kernel)) (by decide +kernel) (by decide +kernel)

/-- The shell exits. -/
def exitCall : Interrupt := shellInterrupt .syscall 0x400010 0 0

/-- The slot of the shell is free and its memory is not. -/
theorem exit_frees_nothing :
    ¬∀ (a : Releases) (i : Interrupt) (k' : Kernel) (frame : InterruptRegisters) (log : List Nat)
      (p : Nat), Reachable releaseSystem (fun _ _ => True) a →
        handleInterruptLog a.kernel i = some ((k', frame), log) →
        (a.kernel.taskManager p).exist = true → (k'.taskManager p).exist = false →
        (a.account k' log).freed p = 1 := by
  intro claimed
  have once := claimed shellReleases exitCall _ _ _ 1 shellReleases_reachable
    (handled_answerLog (k := shellReleases.kernel) (by decide +kernel)) (by decide +kernel)
    (by decide +kernel)
  exact absurd once (by decide +kernel)

end ChudOS
