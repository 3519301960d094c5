import ChudOS.TaskRecords

/-!
# Who begins to wait for a child

Handler by handler: no task but the caller of `WAIT` begins to wait for the exit of a child.

## Main definitions

* `WaitsForExit` — the task waits for the exit of a child.
* `OnlyTask` — only the record of one task may differ.
-/

namespace ChudOS

variable {k k' k'' : Kernel} {i : Interrupt} {frame frame' : InterruptRegisters} {p : Nat}

/-- The task exists and waits for the exit of a child. -/
def WaitsForExit (t : Task) : Prop :=
  t.exist = true ∧ t.processState = .waiting ∧ t.waitingReason = .child ∧
    t.childWaitingReason = childWaitExit

instance (t : Task) : Decidable (WaitsForExit t) := inferInstanceAs (Decidable (_ ∧ _))

/-- No task has begun to wait for a child. -/
def NoNewWaits (k k' : Kernel) : Prop :=
  ∀ p, WaitsForExit (k'.taskManager p) → WaitsForExit (k.taskManager p)

theorem waitsForExit_settled : Settled WaitsForExit where
  gone gone waits := absurd (gone.symm.trans waits.1) (by decide)
  quiet exist _ _ state reason child waits := by
    rwa [WaitsForExit, exist, state, reason, child] at waits
  state _ _ _ other waits := absurd ⟨waits.2.1, waits.2.2.1⟩ other

theorem NoNewWaits.of_noNew (h : NoNew WaitsForExit k k') : NoNewWaits k k' := h

/-! ## Signals -/

/-- Only the record of task `pid` may differ. -/
def OnlyTask (pid : Nat) (k k' : Kernel) : Prop :=
  ∀ p, p ≠ pid → k'.taskManager p = k.taskManager p

namespace OnlyTask

variable {pid : Nat}

theorem refl : OnlyTask pid k k := fun _ _ => rfl

theorem trans (h : OnlyTask pid k k') (g : OnlyTask pid k' k'') : OnlyTask pid k k'' :=
  fun p hp => (g p hp).trans (h p hp)

theorem setTask (t : Task) : OnlyTask pid k (k.setTask pid t) :=
  fun _ hp => Kernel.setTask_of_ne _ _ _ hp

end OnlyTask

section Signals

variable {pid : Nat}

theorem taskStackPush_only {x : U64} (h : taskStackPush k pid x = some k') :
    OnlyTask pid k k' := by
  unfold taskStackPush at h
  dsimp only at h
  split at h
  · simp only [Option.bind_eq_bind, Option.bind_eq_some_iff] at h
    obtain ⟨m, hm, h⟩ := h
    cases h
    exact .setTask _
  · cases h
    exact .refl

theorem taskStackPushAll_only {xs : List U64} (h : taskStackPushAll k pid xs = some k') :
    OnlyTask pid k k' := by
  induction xs generalizing k with
  | nil =>
    cases h
    exact .refl
  | cons x xs ih =>
    simp only [taskStackPushAll, Option.bind_eq_bind, Option.bind_eq_some_iff] at h
    obtain ⟨k₁, h₁, h⟩ := h
    exact (taskStackPush_only h₁).trans (ih h)

theorem taskStackPop_only {x : U64} (h : taskStackPop k pid = some (k', x)) :
    OnlyTask pid k k' := by
  unfold taskStackPop at h
  dsimp only at h
  split at h
  · simp only [Option.bind_eq_bind, Option.bind_eq_some_iff] at h
    obtain ⟨y, -, h⟩ := h
    cases h
    exact .setTask _
  · cases h
    exact .refl

theorem taskStackPopAll_only {n : Nat} {xs : List U64}
    (h : taskStackPopAll k pid n = some (k', xs)) : OnlyTask pid k k' := by
  induction n generalizing k xs with
  | zero =>
    cases h
    exact .refl
  | succ n ih =>
    simp only [taskStackPopAll, Option.bind_eq_bind, Option.bind_eq_some_iff, Prod.exists] at h
    obtain ⟨k₁, x, h₁, k₂, ys, h₂, h⟩ := h
    cases h
    exact (taskStackPop_only h₁).trans (ih h₂)

/-- Selecting an address space for a while changes no record. -/
theorem OnlyTask.selected {c : Prop} [Decidable c] {a b : U64}
    (h : OnlyTask pid (if c then k else k.setCr3 a) k') :
    OnlyTask pid k (if c then k' else k'.setCr3 b) := by
  split_ifs at h ⊢ <;> exact h

theorem establishSignalStack_only (h : establishSignalStack k pid = some k') :
    OnlyTask pid k k' := by
  unfold establishSignalStack at h
  dsimp only at h
  split at h
  · simp only [Option.bind_eq_bind, Option.bind_eq_some_iff] at h
    obtain ⟨k₁, h₁, h⟩ := h
    cases h
    have pushed := (OnlyTask.setTask _).trans (taskStackPushAll_only h₁)
    exact (pushed.trans (.setTask _)).selected.trans (.setTask _)
  · cases h
    exact .refl

/-- `sigret` leaves the task ready. -/
theorem signalReturn_ready (h : signalReturn k pid = some k') : OnlyTask pid k k' ∧
    (k' = k ∨ (k'.taskManager pid).processState = .ready) := by
  unfold signalReturn at h
  dsimp only at h
  split at h
  · simp only [Option.bind_eq_bind, Option.bind_eq_some_iff, Prod.exists] at h
    obtain ⟨k₁, popped, h₁, h⟩ := h
    cases h
    have popped := ((OnlyTask.setTask _).trans (.setTask _)).trans (taskStackPopAll_only h₁)
    exact ⟨(popped.trans (.setTask _)).selected.trans (.setTask _),
      .inr (by simp [Kernel.setState])⟩
  · cases h
    exact ⟨.refl, .inl rfl⟩

/-- The handler of a signal is registered and lies in a region of the task. -/
def Deliverable (k : Kernel) (pid : Nat) (ident : U32) : Prop :=
  let signal := (k.taskManager pid).signals ident.toNat
  signal.registered = true ∧ memAccessOk k signal.entry pid = true

/-- `SendSignal` without a handler does nothing; with one it makes the task ready, or leaves it in
the making when the handler lies outside the regions of the task. -/
theorem sendSignal_cases {ident : U32} {a b c d : U64}
    (h : sendSignal k pid ident a b c d = some k') : OnlyTask pid k k' ∧
      (k' = k ∧ ((k.taskManager pid).exist = true →
          ((k.taskManager pid).signals ident.toNat).registered = false) ∨
        Deliverable k pid ident ∧ (k'.taskManager pid).processState = .ready ∨
        ((k.taskManager pid).signals ident.toNat).registered = true ∧
          (k'.taskManager pid).processState = .creation) := by
  have same : memAccessOk (k.setState pid .creation) = memAccessOk k := by
    funext a q
    unfold memAccessOk
    rw [Kernel.setState_memoryData]
  unfold sendSignal at h
  dsimp only at h
  split at h
  next none =>
    cases h
    refine ⟨.refl, .inl ⟨rfl, fun exist => ?_⟩⟩
    exact none.resolve_left (by simp [exist])
  next found =>
    have registered : ((k.taskManager pid).signals ident.toNat).registered = true := by
      simpa using fun none => found (.inr none)
    split at h
    next ok =>
      simp only [Option.bind_eq_bind, Option.bind_eq_some_iff] at h
      obtain ⟨k₁, h₁, h⟩ := h
      cases h
      refine ⟨?_, .inr (.inl ⟨⟨registered, same ▸ ok⟩, ?_⟩)⟩
      · exact (((OnlyTask.setTask _).trans (establishSignalStack_only h₁)).trans
          (.setTask _)).trans (.setTask _)
      · simp [Kernel.setState]
    next ok =>
      cases h
      exact ⟨.setTask _, .inr (.inr ⟨registered, by simp [Kernel.setState]⟩)⟩

end Signals

/-! ## Task switches -/

theorem taskSwitch_only {cur pid : Nat} (h : k.curPid = cur) :
    OnlyTask cur k (taskSwitch k pid frame).1 := h ▸ OnlyTask.setTask _

theorem forceSwitch_only {cur : Nat} (h : k.curPid = cur) :
    OnlyTask cur k (forceSwitch k frame).1 := by
  subst h
  intro p hp
  simp only [forceSwitch, taskSwitch, Kernel.setRegisters, Kernel.setCr3_taskManager,
    Kernel.setTask_curPid, Kernel.setTask_of_ne _ _ _ hp]

/-! ## System calls -/

section Syscalls

variable {fuel : Nat} {dev : Devices} {regs : InterruptRegisters} {r : SyscallResult}

theorem registerTask_waits (base entry count : U64) (ticks : U8) (stack pml4 : U64) :
    NoNew WaitsForExit k (registerTask k base entry count ticks stack pml4).1 := by
  unfold registerTask
  dsimp only
  split
  · exact .refl
  · exact .setTask fun waits => nomatch waits.2.1

theorem createChild_waits {child : Nat} (h : createChild k regs = some (k', child)) :
    NoNew WaitsForExit k k' := by
  simp only [createChild, Option.bind_eq_bind, Option.bind_eq_some_iff, Prod.exists] at h
  obtain ⟨k₁, pml4, h₁, h⟩ := h
  cases h
  have created := NoNew.keepsTasks waitsForExit_settled (kernelCreateUserMemory_keeps h₁)
  exact (registerTask_waits _ _ _ _ _ _).trans <|
    (NoNew.setTask fun waits => by cases waits.2.1).trans <| created.trans (.setTask id)

/-- The child ends up ready. -/
theorem syscallFork_waits (h : syscallFork k regs = some r) : NoNewWaits k r.kernel := by
  simp only [syscallFork, Option.bind_eq_bind, Option.bind_eq_some_iff, Prod.exists] at h
  obtain ⟨k₁, child, h₁, k₂, h₂, k₃, h₃, h⟩ := h
  cases h
  have created := createChild_waits h₁
  have shared := NoNew.of_tasks (Q := WaitsForExit) (shareRegions_tasks h₂)
  have stack := NoNew.keepsTasks waitsForExit_settled (giveKernelStack_keeps h₃)
  have ready : NoNew WaitsForExit (k₃.enter k.curPid) ((k₃.enter k.curPid).setTask child
      { k₃.taskManager child with ownerPID := k.curPid, processState := .ready }) :=
    .setTask fun waits => absurd waits.2.1 ready_ne_waiting
  exact fun p waits => created p <| NoNew.setRegisters waitsForExit_settled.steady _ _ p <|
    shared p <| stack p <| ready p waits

/-- So does the new program. -/
theorem syscallExecve_waits (h : syscallExecve fuel dev k regs = some r) :
    NoNewWaits k r.kernel := by
  unfold syscallExecve at h
  dsimp only at h
  split at h
  · cases h
    exact .of_noNew .refl
  simp only [Option.bind_eq_bind, Option.bind_eq_some_iff, Prod.exists] at h
  obtain ⟨k₁, pml4, h₁, n, -, k₂, h₂, m, -, h⟩ := h
  cases h
  have created := NoNew.keepsTasks waitsForExit_settled (kernelCreateUserMemory_keeps h₁)
  have creation := created.trans
    (.setState waitsForExit_settled.steady k.curPid (by decide : ProcessState.creation ≠ .waiting))
  refine NoNew.trans (fun p waits => ?_) (forceSwitch_noNew waitsForExit_settled.steady)
  by_cases hp : p = k.curPid
  · rw [hp, Kernel.setTask_self] at waits
    cases waits.2.1
  · rw [Kernel.setTask_of_ne _ _ _ hp] at waits
    refine creation p ?_
    obtain rfl | ⟨-, -, -, -, others⟩ := loadElfStrict_tasks h₂
    · exact waits
    · obtain ⟨d, same⟩ := others p (by simpa [(kernelCreateUserMemory_keeps h₁).curPid] using hp)
      change WaitsForExit (k₂.taskManager p) at waits
      rwa [same] at waits

/-- `WAIT` makes no one but the caller wait. -/
theorem syscallWait_only : OnlyTask k.curPid k (syscallWait k regs).kernel := by
  unfold syscallWait
  dsimp only
  split
  · exact .refl
  · exact OnlyTask.trans (.setTask _) (forceSwitch_only rfl)

theorem syscallWait_waits
    (hp : (k.taskManager regs.rbx.toNat).ownerPID = k.curPid → p ≠ k.curPid)
    (waits : WaitsForExit ((syscallWait k regs).kernel.taskManager p)) :
    WaitsForExit (k.taskManager p) := by
  by_cases child : (k.taskManager regs.rbx.toNat).ownerPID = k.curPid
  · rwa [syscallWait_only p (hp child)] at waits
  · rwa [syscallWait, if_pos child] at waits

end Syscalls

/-- Only the caller of `WAIT` can begin to wait for a child. -/
theorem handleInterrupt_waits (h : handleInterrupt k i = some (k', frame))
    (hp : WaitsForChild k i → p ≠ k.curPid) (waits : WaitsForExit (k'.taskManager p)) :
    WaitsForExit (k.taskManager p) := by
  obtain none | ⟨r, hi, tail, call⟩ := handleInterrupt_noNew waitsForExit_settled h
  · exact none p waits
  · refine enteredSyscall_noNew waitsForExit_settled.steady (i := i) p ?_
    have left := tail p waits
    obtain ⟨-, fork⟩ | ⟨-, execve⟩ | ⟨hrax, rfl⟩ := call
    · exact syscallFork_waits fork p left
    · exact syscallExecve_waits execve p left
    · exact syscallWait_waits (fun child => hp (.of_entered ⟨hi, hrax, child⟩)) left

end ChudOS
