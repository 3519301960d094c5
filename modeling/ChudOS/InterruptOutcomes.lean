import ChudOS.LowLevel.TimerFrame
import ChudOS.ErrorHandling.ExceptionsFrame
import ChudOS.Userland.SignalsFrame
import ChudOS.Interrupts

/-!
# How a handler ends

Every handler either stays with the current task or switches to another one. `Outcome` lists the
ways, and `handleInterrupt_outcome` follows each handler to its end.
-/

namespace ChudOS

/-- The current task goes on, in its own address space; no task has ceased to exist. -/
structure Stays (k k' : Kernel) : Prop where
  curPid : k'.curPid = k.curPid
  alive : Alive k k'
  space : AddressSpaceCurrent k → AddressSpaceCurrent k'

namespace Stays

variable {k k' k'' : Kernel}

theorem refl : Stays k k := ⟨rfl, .refl, fun h => h⟩

theorem trans (h : Stays k k') (g : Stays k' k'') : Stays k k'' :=
  ⟨g.curPid.trans h.curPid, h.alive.trans g.alive, fun hk => g.space (h.space hk)⟩

theorem spaces (h : KeepsSpaces k k') : Stays k k' where
  curPid := h.curPid
  alive := h.alive
  space hk := by
    unfold AddressSpaceCurrent
    rw [h.paging, h.curPid, h.basePML4]
    exact hk

theorem setTask {pid : Nat} {t : Task} (he : t.exist = (k.taskManager pid).exist)
    (hp : t.basePML4 = (k.taskManager pid).basePML4) : Stays k (k.setTask pid t) :=
  spaces (.setTask he hp)

theorem setRegisters (pid : Nat) (r : InterruptRegisters) : Stays k (k.setRegisters pid r) :=
  spaces (.setRegisters pid r)

theorem keepsTasks (h : KeepsTasks k k') : Stays k k' := spaces h.spaces

theorem ram {m : Memory} (h : m = { k.mem with ram := m.ram }) : Stays k { k with mem := m } :=
  spaces (.ram h)

/-- Selecting the address space of the current task. -/
theorem setCr3 : Stays k (k.setCr3 (k.taskManager k.curPid).basePML4) :=
  ⟨rfl, fun _ h => h, fun _ => ⟨rfl, rfl⟩⟩

end Stays

/-! ## What a step is entitled to -/

/-- The file `EXECVE` loads: the first sector of the program the descriptor in `rdx` names. -/
def execveHeader (k : Kernel) (i : Interrupt) : ElfHeader64 :=
  let index := ((k.taskManager k.curPid).descriptors i.frame.rdx.toNat).gemfsIndex
  elfHeader (i.dev.readLBA (i.dev.blockToLBA (i.dev.readEntry index).start))

/-- The frame with which a task that gives up the CPU is to go on later: the one it entered with,
except for the result of a system call and for a program that `EXECVE` replaced. -/
inductive OwnFrame (k : Kernel) (i : Interrupt) : InterruptRegisters → Prop
  | entered : OwnFrame k i i.frame
  | result (rax : U64) : i.cause = .syscall → OwnFrame k i { i.frame with rax := rax }
  | loaded : i.cause = .syscall → i.frame.rax = 5 → elfAccepted (execveHeader k i) = true →
      OwnFrame k i (startFrame (execveHeader k i).eEntry)

/-- The interrupt ends the current task. -/
def Kills (k : Kernel) (i : Interrupt) : Prop :=
  match i.cause with
  | .timer => (k.taskManager k.curPid).processState = .kill
  | .syscall => i.frame.rax = 0
  | .pageFault => faultKills (k.taskManager k.curPid).memoryData i.frame.cr2 = true
  | .generalProtection _ => True
  | .invalidOpcode _ => True
  | .keyboard _ _ => False

def Fatal (i : Interrupt) : Prop :=
  match i.cause with
  | .generalProtection _ => True
  | .invalidOpcode _ => True
  | _ => False

theorem Fatal.kills {i : Interrupt} (h : Fatal i) (k : Kernel) : Kills k i := by
  unfold Fatal at h
  unfold Kills
  cases hi : i.cause <;> simp_all

/-- The system call `WAIT` with the PID of a task that the caller owns. -/
def WaitsForChild (k : Kernel) (i : Interrupt) : Prop :=
  i.cause = .syscall ∧ i.frame.rax = 6 ∧
    (k.taskManager i.frame.rbx.toNat).ownerPID = k.curPid

/-- All tasks go on to exist, but for the current one when it is killed. -/
def Survive (k : Kernel) (i : Interrupt) (k' : Kernel) : Prop :=
  ∀ p, (k.taskManager p).exist = true →
    (k'.taskManager p).exist = true ∨ p = k.curPid ∧ Kills k i

/-- The ways a handler can end, with the frame it leaves for the stub. -/
inductive Outcome (k : Kernel) (i : Interrupt) : Kernel → InterruptRegisters → Prop
  | stays {k' : Kernel} {frame : InterruptRegisters} : Stays k k' → Outcome k i k' frame
  | switches {k' : Kernel} {frame popped : InterruptRegisters} : OwnFrame k i frame →
      Switched k.curPid frame k' popped → Survive k i k' → Outcome k i k' popped
  | waits {k' : Kernel} {popped : InterruptRegisters} : WaitsForChild k i →
      Switched k.curPid i.frame k' popped → Survive k i k' →
      Outcome k i (k'.setRegisters k.curPid popped) popped
  | fatal {k' : Kernel} {frame popped : InterruptRegisters} : Fatal i →
      Switched k.curPid frame k' popped → Survive k i k' →
      (k'.taskManager k.curPid).exist = false → Outcome k i k' i.frame

section Switching

variable {k k₁ : Kernel} {i : Interrupt} {frame : InterruptRegisters}

theorem survive_forceSwitch (hc : k₁.curPid = k.curPid)
    (he : Alive k k₁)
    (hk : (k₁.taskManager k.curPid).processState = .kill → Kills k i) :
    Survive k i (forceSwitch k₁ frame).1 := by
  intro p hp
  rw [forceSwitch_exist, hc]
  by_cases h : p = k.curPid ∧ (k₁.taskManager p).processState = .kill
  · exact .inr ⟨h.1, hk (h.1 ▸ h.2)⟩
  · exact .inl (by rw [if_neg h]; exact he p hp)

/-- A handler that ends in `ForceSwitch` with the task's own frame. -/
theorem Outcome.forceSwitch (own : OwnFrame k i frame) (hc : k₁.curPid = k.curPid)
    (he : Alive k k₁)
    (hk : (k₁.taskManager k.curPid).processState = .kill → Kills k i) :
    Outcome k i (forceSwitch k₁ frame).1 (forceSwitch k₁ frame).2 :=
  .switches own (hc ▸ forceSwitch_switched k₁ frame) (survive_forceSwitch hc he hk)

end Switching

/-! ## The exceptions, the timer and the keyboard -/

section Handlers

variable {k k' : Kernel} {i : Interrupt} {frame : InterruptRegisters} {fuel : Nat}

theorem signalOwner_tasks (k : Kernel) (origin : Task) (reason : U32) (ret : U64) :
    (signalOwner k origin reason ret).curPid = k.curPid ∧
      ∀ p, ((signalOwner k origin reason ret).taskManager p).exist = (k.taskManager p).exist := by
  unfold signalOwner
  dsimp only
  split_ifs
  · exact ⟨rfl, fun _ => rfl⟩
  · exact ⟨rfl, Kernel.setTask_field _ _ _ Task.exist rfl⟩
  · exact ⟨rfl, fun _ => rfl⟩

theorem handlePageFault_outcome (hi : i.cause = .pageFault)
    (h : handlePageFault fuel k i.frame = some (k', frame)) : Outcome k i k' frame := by
  have entered : Stays k (k.setRegisters k.curPid i.frame) := .setRegisters _ _
  unfold handlePageFault at h
  dsimp only at h
  split at h
  next kills =>
    simp only [Option.bind_eq_bind, Option.bind_eq_some_iff, Option.some.injEq] at h
    obtain ⟨k₁, h₁, h⟩ := h
    obtain ⟨hcur, htasks, -⟩ := freeTaskMemory_tasks h₁
    have outcome : Outcome k i (forceSwitch k₁ i.frame).1 (forceSwitch k₁ i.frame).2 := by
      refine .forceSwitch .entered hcur (fun p hp => ?_) fun _ => ?_
      · rw [htasks, (signalOwner_tasks _ _ _ _).2 p, killTask, Kernel.setState_exist]
        exact entered.alive p hp
      · simpa [Kills, hi] using kills
    rwa [h] at outcome
  next => 
    split at h
    · have selected := entered.trans .setCr3
      have walked := selected.trans (.keepsTasks (.mem
        (calculatePagePhysicalEntryAddress_layout _
          (extractPageEntries (i.frame.cr2 &&& ~~~0xFFF)))))
      split at h
      · simp only [Option.bind_eq_bind, Option.bind_eq_some_iff] at h
        obtain ⟨k₁, h₁, h⟩ := h
        cases h
        exact .stays (walked.trans (.keepsTasks (demandPage_keeps h₁)))
      · simp only [Option.bind_eq_bind, Option.bind_eq_some_iff] at h
        obtain ⟨m, hm, h⟩ := h
        cases h
        exact .stays (walked.trans (.keepsTasks (.mem (resolveCoW_layout hm))))
    · simp only [Option.bind_eq_bind, Option.bind_eq_some_iff, Prod.exists] at h
      obtain ⟨m, a, hm, h⟩ := h
      cases h
      exact .stays (entered.trans (.keepsTasks (.mem (allocPage_layout hm))))

theorem retireKilled_tasks {pid : Nat} (h : retireKilled fuel k pid = some k')
    (hpid : pid = k.curPid) :
    k'.curPid = k.curPid ∧ ∀ p, (k'.taskManager p).exist = (k.taskManager p).exist ∨
      p = pid ∧ (k.taskManager pid).processState = .kill := by
  unfold retireKilled at h
  dsimp only at h
  split at h
  next killed =>
    obtain ⟨hcur, htasks, -⟩ := freeTaskMemory_tasks h
    refine ⟨hcur.trans hpid, fun p => ?_⟩
    by_cases hp : p = pid
    · exact .inr ⟨hp, killed⟩
    · rw [htasks, Kernel.setTask_of_ne _ _ _ hp]; exact .inl rfl
  next => cases h; exact ⟨rfl, fun _ => .inl rfl⟩

theorem timerInterrupt_outcome (hi : i.cause = .timer)
    (h : timerInterrupt fuel k i.frame = some (k', frame)) : Outcome k i k' frame := by
  have entered : Stays k (k.setRegisters k.curPid i.frame) := .setRegisters _ _
  unfold timerInterrupt at h
  dsimp only at h
  split at h
  · cases h; exact .stays .refl
  split at h
  · simp only [Option.bind_eq_bind, Option.bind_eq_some_iff, Option.some.injEq] at h
    obtain ⟨k₁, h₁, h⟩ := h
    obtain ⟨hcur, survive⟩ := retireKilled_tasks h₁ rfl
    have switched : Switched k₁.curPid i.frame (taskSwitch k₁ (findNextTask k₁ k.curPid) i.frame).1
        (taskSwitch k₁ (findNextTask k₁ k.curPid) i.frame).2 :=
      taskSwitch_switched ((findNextTask_spec k₁ k.curPid).imp_right And.right)
    rw [h, hcur] at switched
    refine .switches .entered switched fun p hp => ?_
    obtain rfl : (taskSwitch k₁ (findNextTask k₁ k.curPid) i.frame).1 = k' := congrArg Prod.fst h
    rw [taskSwitch_exist]
    obtain same | ⟨rfl, killed⟩ := survive p
    · left
      rw [same]
      exact (Kernel.setTask_field _ _ _ Task.exist (by rfl) p).trans (entered.alive p hp)
    · refine .inr ⟨rfl, ?_⟩
      simpa [Kills, hi, Kernel.setRegisters] using killed
  · cases h
    exact .stays (entered.trans (.setTask rfl rfl))

theorem fatalException_outcome (hi : Fatal i) {garbage : U64}
    (h : fatalException k i.frame garbage = some (k', frame)) : Outcome k i k' frame := by
  unfold fatalException at h
  dsimp only at h
  split at h
  · cases h
  cases h
  refine .fatal hi (forceSwitch_switched (killTask k k.curPid) _)
    (survive_forceSwitch rfl (fun p hp => ?_) fun _ => ?_) ?_
  · exact (Kernel.setState_exist ..).trans hp
  · exact hi.kills k
  · rw [forceSwitch_exist]; simp [killTask, Kernel.setState]

/-- The address space of the waiting task is selected for the copy only. -/
theorem deliverLine_stays {pid : Nat} (h : deliverLine k pid = some k') : Stays k k' := by
  simp only [deliverLine, Option.bind_eq_bind, Option.bind_eq_some_iff] at h
  obtain ⟨m, hm, h⟩ := h
  cases h
  refine ⟨rfl, fun p hp => ?_, fun hk => ?_⟩
  · exact (Kernel.setTask_field _ _ _ Task.exist (by rfl) p).trans hp
  · have base := hk.2.trans (Kernel.setTask_field k pid
      { k.taskManager pid with waitingReason := .null, processState := .ready }
      Task.basePML4 rfl k.curPid).symm
    exact ⟨base, base⟩

theorem handleKey_stays {keycode : U8} {release : Bool}
    (h : handleKey k keycode release = some k') : Stays k k' := by
  have typed (c : U8) : Stays k (typeKey k c) := by
    unfold typeKey
    dsimp only
    split_ifs <;> exact ⟨rfl, fun _ h => h, fun h => h⟩
  unfold handleKey at h
  split_ifs at h
  case pos | pos => cases h; exact ⟨rfl, fun _ h => h, fun h => h⟩
  · cases h; exact typed _
  · exact deliverLine_stays h
  all_goals cases h; exact .refl

theorem handleKeyboardInterrupt_outcome {status scancode : U8}
    (h : handleKeyboardInterrupt k i.frame status scancode = some (k', frame)) :
    Outcome k i k' frame := by
  have entered : Stays k (k.setRegisters k.curPid i.frame) := .setRegisters _ _
  unfold handleKeyboardInterrupt at h
  dsimp only at h
  split at h
  · cases h; exact .stays entered
  · simp only [Option.bind_eq_bind, Option.bind_eq_some_iff] at h
    obtain ⟨k₁, h₁, h⟩ := h
    cases h
    exact .stays (entered.trans (handleKey_stays h₁))

end Handlers

/-! ## System calls -/

/-- The ways a system call can end, before the common tail. -/
inductive SyscallOutcome (k : Kernel) (i : Interrupt) : SyscallResult → Prop
  | stays {k' : Kernel} {frame : InterruptRegisters} : Stays k k' →
      SyscallOutcome k i (continues k' frame)
  | switches {k' : Kernel} {frame popped : InterruptRegisters} : OwnFrame k i frame →
      Switched k.curPid frame k' popped → Survive k i k' → SyscallOutcome k i ⟨k', popped, true⟩
  | waits {k' : Kernel} {popped : InterruptRegisters} : WaitsForChild k i →
      Switched k.curPid i.frame k' popped → Survive k i k' →
      SyscallOutcome k i (continues k' popped)

section Syscalls

variable {k k' : Kernel} {i : Interrupt} {r : SyscallResult} {fuel : Nat}

theorem SyscallOutcome.yields {k₁ : Kernel} {frame : InterruptRegisters}
    (own : OwnFrame k i frame) (hc : k₁.curPid = k.curPid)
    (he : Alive k k₁)
    (hk : (k₁.taskManager k.curPid).processState = .kill → Kills k i) :
    SyscallOutcome k i (yields k₁ frame) :=
  .switches own (hc ▸ forceSwitch_switched k₁ frame) (survive_forceSwitch hc he hk)

theorem setDescriptor_stays (pid fd : Nat) (d : FileDescriptor) :
    Stays k (setDescriptor k pid fd d) := .setTask rfl rfl

theorem syscallOpen_outcome (h : syscallOpen fuel i.dev k i.frame = some r) :
    SyscallOutcome k i r := by
  simp only [syscallOpen, Option.bind_eq_bind, Option.bind_eq_some_iff] at h
  obtain ⟨path, -, h⟩ := h
  split at h <;> cases h
  · exact .stays (setDescriptor_stays _ _ _)
  · exact .stays ((setDescriptor_stays _ _ _).trans (setDescriptor_stays _ _ _))

theorem syscallWrite_outcome (h : syscallWrite k i.frame = some r) : SyscallOutcome k i r := by
  simp only [syscallWrite, Option.bind_eq_bind, Option.bind_eq_some_iff] at h
  obtain ⟨bytes, -, h⟩ := h
  cases h
  exact .stays .refl

theorem syscallRead_outcome (h : syscallRead i.dev k i.frame = some r) :
    SyscallOutcome k i r := by
  unfold syscallRead at h
  dsimp only at h
  split at h
  · cases h
    refine .yields .entered rfl (fun p hp => ?_) (by simp)
    exact (Kernel.setTask_field _ _ _ Task.exist (by rfl) p).trans hp
  split at h
  · simp only [Option.bind_eq_bind, Option.bind_eq_some_iff] at h
    obtain ⟨m, hm, h⟩ := h
    cases h
    exact .stays (.ram (copyOut_eq hm))
  · cases h; exact .stays .refl

theorem syscallClose_outcome : SyscallOutcome k i (syscallClose k i.frame) :=
  .stays (setDescriptor_stays _ _ _)

theorem syscallGetdents_outcome (h : syscallGetdents fuel i.dev k i.frame = some r) :
    SyscallOutcome k i r := by
  unfold syscallGetdents at h
  split at h
  · cases h; exact .stays .refl
  · simp only [Option.bind_eq_bind, Option.bind_eq_some_iff] at h
    obtain ⟨n, -, h⟩ := h
    cases h
    exact .stays .refl

theorem syscallSysinfo_outcome (h : syscallSysinfo k i.frame = some r) :
    SyscallOutcome k i r := by
  simp only [syscallSysinfo, Option.bind_eq_bind, Option.bind_eq_some_iff] at h
  obtain ⟨m, hm, h⟩ := h
  cases h
  exact .stays (.ram (copyOut_eq hm))

theorem registerSignal_stays (pid : Nat) (ident : U32) (entry : U64) :
    Stays k (registerSignal k pid ident entry) := by
  unfold registerSignal
  dsimp only
  split
  · exact .setTask rfl rfl
  · exact .refl

theorem syscallWait_outcome (hi : i.cause = .syscall) (hrax : i.frame.rax = 6) :
    SyscallOutcome k i (syscallWait k i.frame) := by
  unfold syscallWait
  dsimp only
  split
  next => exact .stays .refl
  next owner =>
    let k₁ := k.setTask k.curPid { k.taskManager k.curPid with
      processState := .waiting
      waitingReason := .child
      childWaitingReason := i.frame.rdx.setWidth 32 }
    have exist : ∀ p, (k₁.taskManager p).exist = (k.taskManager p).exist :=
      Kernel.setTask_field _ _ _ Task.exist rfl
    have waiting : (k₁.taskManager k.curPid).processState = .waiting := by simp [k₁]
    have survive : Survive k i (forceSwitch k₁ i.frame).1 :=
      survive_forceSwitch rfl (fun p hp => (exist p).trans hp) (by simp [waiting])
    exact .waits ⟨hi, hrax, not_not.mp owner⟩ (forceSwitch_switched k₁ i.frame) survive

/-- Whatever the signal to the parent did, the caller is killed. -/
theorem syscallExit_outcome (hi : i.cause = .syscall) (hrax : i.frame.rax = 0)
    (agree : k.mem.paging.cr3 = k.mem.paging.pml4Physical) (h : syscallExit k i.frame = some r) :
    SyscallOutcome k i r := by
  simp only [syscallExit, Option.bind_eq_bind, Option.bind_eq_some_iff] at h
  obtain ⟨k₁, h₁, h⟩ := h
  cases h
  have sent : KeepsSpaces k k₁ := by
    unfold signalParent at h₁
    split at h₁
    · exact sendSignal_keeps agree h₁
    · cases h₁; exact .refl
  refine .yields .entered sent.curPid (fun p hp => ?_) fun _ => by simp [Kills, hi, hrax]
  rw [killTask, Kernel.setState_exist, sent.exist p, hp]

theorem syscallSigret_outcome (agree : k.mem.paging.cr3 = k.mem.paging.pml4Physical)
    (h : syscallSigret k = some r) : SyscallOutcome k i r := by
  simp only [syscallSigret, Option.bind_eq_bind, Option.bind_eq_some_iff] at h
  obtain ⟨k₁, h₁, h⟩ := h
  cases h
  exact .stays (.spaces (signalReturn_keeps agree h₁))

/-- The frame of the caller afterwards is its own when the image was rejected, else the start frame
of the program. -/
theorem syscallExecve_outcome (hi : i.cause = .syscall) (hrax : i.frame.rax = 5)
    (saved : (k.taskManager k.curPid).savedRegisters = i.frame)
    (h : syscallExecve fuel i.dev k i.frame = some r) : SyscallOutcome k i r := by
  unfold syscallExecve at h
  dsimp only at h
  split at h
  · cases h; exact .stays .refl
  simp only [Option.bind_eq_bind, Option.bind_eq_some_iff, Prod.exists] at h
  obtain ⟨k₁, pml4, h₁, n, -, k₂, h₂, m, -, h⟩ := h
  cases h
  have created := kernelCreateUserMemory_keeps h₁
  have creation := created.spaces.trans (.setState k.curPid .creation)
  have own : OwnFrame k i (k₂.taskManager k.curPid).savedRegisters ∧ k₂.curPid = k.curPid ∧
      Alive k k₂ := by
    obtain rfl | ⟨accepted, hcur, hex, hregs, others⟩ := loadElfStrict_tasks h₂
    · refine ⟨?_, creation.curPid, creation.alive⟩
      have same : ((k₁.setState k.curPid .creation).taskManager k.curPid).savedRegisters =
          i.frame := by
        simp [Kernel.setState, created.savedRegisters, saved]
      rw [same]
      exact .entered
    · rw [creation.curPid] at hex hregs others
      refine ⟨hregs ▸ .loaded hi hrax accepted, hcur.trans creation.curPid, fun p hp => ?_⟩
      by_cases hpc : p = k.curPid
      · exact hpc ▸ hex
      · obtain ⟨d, same⟩ := others p hpc
        rw [same, creation.exist p, hp]
  obtain ⟨own, hcur, hex⟩ := own
  refine .yields own hcur (fun p hp => ?_) (by simp)
  exact (Kernel.setTask_field _ _ _ Task.exist (by rfl) p).trans (hex p hp)

/-- The copy loops go back and forth between the two address spaces and touch no record. -/
theorem forkPage_tasks {cur child : Nat} {a : U64} (h : forkPage k cur child a = some k') :
    k'.taskManager = k.taskManager := by
  simp only [forkPage, Option.bind_eq_bind, Option.bind_eq_some_iff, Prod.exists] at h
  obtain ⟨m, b, -, h⟩ := h
  cases h
  rfl

theorem forkPages_tasks {cur child n : Nat} {step a : U64}
    (h : forkPages k cur child step a n = some k') : k'.taskManager = k.taskManager := by
  induction n generalizing k a with
  | zero => cases h; rfl
  | succ n ih =>
    simp only [forkPages, Option.bind_eq_bind, Option.bind_eq_some_iff] at h
    obtain ⟨k₁, h₁, h⟩ := h
    rw [ih h, forkPage_tasks h₁]

theorem registerTask_alive (k : Kernel) (base entry count : U64) (ticks : U8)
    (stack pml4 : U64) : Alive k (registerTask k base entry count ticks stack pml4).1 := by
  unfold registerTask
  dsimp only
  split
  · exact fun _ hp => hp
  · exact .setTask fun _ => rfl

theorem createChild_alive {regs : InterruptRegisters} {child : Nat}
    (h : createChild k regs = some (k', child)) : Alive k k' := by
  simp only [createChild, Option.bind_eq_bind, Option.bind_eq_some_iff, Prod.exists] at h
  obtain ⟨k₁, pml4, h₁, h⟩ := h
  cases h
  exact (registerTask_alive _ _ _ _ _ _ _).trans <| (Alive.setTask fun _ => rfl).trans <|
    (kernelCreateUserMemory_keeps h₁).alive.trans (.setTask id)

theorem shareRegions_tasks {cur child : Nat} (h : shareRegions k cur child = some k') :
    k'.taskManager = k.taskManager := by
  simp only [shareRegions, Option.bind_eq_bind, Option.bind_eq_some_iff] at h
  obtain ⟨k₁, h₁, h⟩ := h
  rw [forkPages_tasks h, forkPages_tasks h₁]

theorem giveKernelStack_keeps {pid : Nat} (h : giveKernelStack k pid = some k') :
    KeepsTasks k k' := by
  simp only [giveKernelStack, Option.bind_eq_bind, Option.bind_eq_some_iff, Prod.exists] at h
  obtain ⟨k₁, stack, h₁, h⟩ := h
  cases h
  exact (mallocKernelStack_keeps h₁).trans (.memoryData pid _)

/-- The parent goes on, back in its own address space. -/
theorem syscallFork_outcome (h : syscallFork k i.frame = some r) : SyscallOutcome k i r := by
  simp only [syscallFork, Option.bind_eq_bind, Option.bind_eq_some_iff, Prod.exists] at h
  obtain ⟨k₁, child, h₁, k₂, h₂, k₃, h₃, h⟩ := h
  cases h
  have alive : Alive k k₃ := (createChild_alive h₁).trans <|
    (KeepsSpaces.setRegisters k.curPid _).alive.trans <|
    (Alive.of_tasks (shareRegions_tasks h₂)).trans (giveKernelStack_keeps h₃).alive
  have returned : Stays (k₃.enter k.curPid) ((k₃.enter k.curPid).setTask child
      { k₃.taskManager child with ownerPID := k.curPid, processState := .ready }) :=
    .setTask rfl rfl
  exact .stays ⟨rfl, alive.trans returned.alive, fun _ => returned.space ⟨rfl, rfl⟩⟩

theorem dispatchSyscall_outcome (hi : i.cause = .syscall)
    (saved : (k.taskManager k.curPid).savedRegisters = i.frame)
    (agree : k.mem.paging.cr3 = k.mem.paging.pml4Physical)
    (h : dispatchSyscall i.fuel i.dev k i.frame = some r) : SyscallOutcome k i r := by
  unfold dispatchSyscall at h
  dsimp only at h
  split at h
  next hrax => exact syscallExit_outcome hi (BitVec.eq_of_toNat_eq hrax) agree h
  · exact syscallOpen_outcome h
  · exact syscallWrite_outcome h
  · exact syscallRead_outcome h
  · exact syscallFork_outcome h
  next hrax => exact syscallExecve_outcome hi (BitVec.eq_of_toNat_eq hrax) saved h
  next hrax => cases h; exact syscallWait_outcome hi (BitVec.eq_of_toNat_eq hrax)
  · cases h; exact syscallClose_outcome
  · cases h; exact .stays (.setTask rfl rfl)
  · cases h; exact .stays .refl
  · exact syscallGetdents_outcome h
  · exact syscallSysinfo_outcome h
  · cases h; exact .stays (registerSignal_stays _ _ _)
  · exact syscallSigret_outcome agree h
  · cases h; exact .stays .refl

end Syscalls

/-- The kernel as a system call finds it: the frame saved, the caller's address space selected. -/
def enteredSyscall (k : Kernel) (i : Interrupt) : Kernel :=
  let k := k.setRegisters k.curPid i.frame
  k.setCr3 (k.taskManager k.curPid).basePML4

section Entered

variable {k k' : Kernel} {i : Interrupt} {frame : InterruptRegisters}

theorem enteredSyscall_stays (k : Kernel) (i : Interrupt) : Stays k (enteredSyscall k i) :=
  (Stays.setRegisters _ _).trans .setCr3

theorem enteredSyscall_field {α : Type} (field : Task → α)
    (h : ∀ t r, field { t with savedRegisters := r } = field t) (p : Nat) :
    field ((enteredSyscall k i).taskManager p) = field (k.taskManager p) :=
  Kernel.setTask_field k _ _ field (h _ _) p

theorem enteredSyscall_freePID (k : Kernel) (i : Interrupt) :
    findFreePID (enteredSyscall k i) = findFreePID k := by
  have same : ∀ p, ((enteredSyscall k i).taskManager p).exist = (k.taskManager p).exist :=
    enteredSyscall_field Task.exist fun _ _ => rfl
  simp only [findFreePID, same]

theorem OwnFrame.of_entered (h : OwnFrame (enteredSyscall k i) i frame) : OwnFrame k i frame := by
  have header : execveHeader (enteredSyscall k i) i = execveHeader k i := by
    unfold execveHeader
    rw [enteredSyscall_field Task.descriptors fun _ _ => rfl]
    rfl
  cases h with
  | entered => exact .entered
  | result rax hi => exact .result rax hi
  | loaded hi hrax accepted => rw [header] at accepted ⊢; exact .loaded hi hrax accepted

theorem Survive.of_entered (hi : i.cause = .syscall) (h : Survive (enteredSyscall k i) i k') :
    Survive k i k' := by
  intro p hp
  refine (h p ((enteredSyscall_stays k i).alive p hp)).imp_right fun ⟨hc, hk⟩ => ⟨hc, ?_⟩
  simpa [Kills, hi] using hk

theorem WaitsForChild.of_entered (h : WaitsForChild (enteredSyscall k i) i) :
    WaitsForChild k i :=
  ⟨h.1, h.2.1, (enteredSyscall_field Task.ownerPID (fun _ _ => rfl) _).symm.trans h.2.2⟩

theorem handleSyscall_outcome (hi : i.cause = .syscall)
    (h : handleSyscall i.fuel i.dev k i.frame = some (k', frame)) : Outcome k i k' frame := by
  have saved : ((enteredSyscall k i).taskManager k.curPid).savedRegisters = i.frame :=
    k.setRegisters_savedRegisters k.curPid i.frame
  simp only [handleSyscall, Option.bind_eq_bind, Option.bind_eq_some_iff] at h
  obtain ⟨r, hr, h⟩ := h
  have outcome : SyscallOutcome (enteredSyscall k i) i r := dispatchSyscall_outcome hi saved rfl hr
  cases outcome with
  | stays hs =>
    cases h
    exact .stays (((enteredSyscall_stays k i).trans hs).trans (.setRegisters _ _))
  | switches own switched survive =>
    cases h
    exact .switches own.of_entered switched (survive.of_entered hi)
  | waits waits switched survive =>
    cases h
    exact .waits waits.of_entered switched (survive.of_entered hi)

end Entered

/-- The ways a handler can end. -/
theorem handleInterrupt_outcome {k k' : Kernel} {i : Interrupt} {frame : InterruptRegisters}
    (h : handleInterrupt k i = some (k', frame)) : Outcome k i k' frame := by
  unfold handleInterrupt at h
  split at h
  next hi => exact timerInterrupt_outcome hi h
  next hi => exact handleSyscall_outcome hi h
  next hi => exact handlePageFault_outcome hi h
  next hi => exact fatalException_outcome (by simp [Fatal, hi]) h
  next hi => exact fatalException_outcome (by simp [Fatal, hi]) h
  next => exact handleKeyboardInterrupt_outcome h

end ChudOS
