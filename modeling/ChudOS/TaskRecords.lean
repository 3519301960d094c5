import ChudOS.InterruptOutcomes

/-!
# What handlers do to the records of tasks

Handler by handler: a property of a record that depends on little more than whom the task belongs to
and what it waits for is not acquired. `FORK`, `EXECVE` and `WAIT`, which write such things, are left
to those who need them; so are demand paging and the registration of signals for a property that
depends on the regions and the signals as well.

* `Steady` — the properties in question, and among them `Settled`.
* `NoNew` — no task has acquired the property.
-/

namespace ChudOS

variable {Q : Task → Prop} {k k' k'' : Kernel} {i : Interrupt}
  {frame frame' : InterruptRegisters} {pid : Nat}

/-- A task that does not exist lacks `Q`, and `Q` looks at the owner, the address space, the state
and the two reasons for waiting; at the latter only in a task that waits for a child. -/
structure Settled (Q : Task → Prop) : Prop where
  gone : ∀ {t : Task}, t.exist = false → ¬Q t
  quiet : ∀ {t t' : Task}, t'.exist = t.exist → t'.ownerPID = t.ownerPID →
    t'.basePML4 = t.basePML4 → t'.processState = t.processState → t'.waitingReason = t.waitingReason →
    t'.childWaitingReason = t.childWaitingReason → Q t' → Q t
  state : ∀ {t t' : Task}, t'.exist = t.exist → t'.ownerPID = t.ownerPID →
    t'.basePML4 = t.basePML4 → ¬(t'.processState = .waiting ∧ t'.waitingReason = .child) → Q t' → Q t

/-- The same for a `Q` that also looks at the regions and the signals of the task. -/
structure Steady (Q : Task → Prop) : Prop where
  gone : ∀ {t : Task}, t.exist = false → ¬Q t
  quiet : ∀ {t t' : Task}, t'.exist = t.exist → t'.ownerPID = t.ownerPID →
    t'.basePML4 = t.basePML4 → t'.processState = t.processState → t'.waitingReason = t.waitingReason →
    t'.childWaitingReason = t.childWaitingReason → t'.memoryData = t.memoryData →
    t'.signals = t.signals → Q t' → Q t
  state : ∀ {t t' : Task}, t'.exist = t.exist → t'.ownerPID = t.ownerPID →
    t'.basePML4 = t.basePML4 → t'.memoryData = t.memoryData → t'.signals = t.signals →
    ¬(t'.processState = .waiting ∧ t'.waitingReason = .child) → Q t' → Q t

theorem ready_ne_waiting : ProcessState.ready ≠ .waiting := by decide

theorem Settled.steady (hQ : Settled Q) : Steady Q where
  gone := hQ.gone
  quiet exist owner space state reason child _ _ := hQ.quiet exist owner space state reason child
  state exist owner space _ _ := hQ.state exist owner space

/-- No task has come to have the property. -/
def NoNew (Q : Task → Prop) (k k' : Kernel) : Prop :=
  ∀ p, Q (k'.taskManager p) → Q (k.taskManager p)

namespace NoNew

theorem refl : NoNew Q k k := fun _ h => h

theorem trans (h : NoNew Q k k') (g : NoNew Q k' k'') : NoNew Q k k'' :=
  fun p hp => h p (g p hp)

theorem of_tasks (h : k'.taskManager = k.taskManager) : NoNew Q k k' := fun _ hp => h ▸ hp

theorem setTask {t : Task} (h : Q t → Q (k.taskManager pid)) : NoNew Q k (k.setTask pid t) := by
  intro p hp
  by_cases hpp : p = pid
  · subst hpp
    rw [Kernel.setTask_self] at hp
    exact h hp
  · rwa [Kernel.setTask_of_ne _ _ _ hpp] at hp

theorem setRegisters (hQ : Steady Q) (pid : Nat) (r : InterruptRegisters) :
    NoNew Q k (k.setRegisters pid r) :=
  setTask (hQ.quiet rfl rfl rfl rfl rfl rfl rfl rfl)

theorem setState (hQ : Steady Q) (pid : Nat) {s : ProcessState} (h : s ≠ .waiting) :
    NoNew Q k (k.setState pid s) :=
  setTask (hQ.state rfl rfl rfl rfl rfl fun waits => h waits.1)

theorem keepsTasks (hQ : Settled Q) (h : KeepsTasks k k') : NoNew Q k k' := by
  intro p
  have same := h.task p
  apply hQ.quiet
  all_goals rw [same]

/-- Selecting an address space for a while changes no record. -/
theorem selected {c : Prop} [Decidable c] {a b : U64}
    (h : NoNew Q (if c then k else k.setCr3 a) k') :
    NoNew Q k (if c then k' else k'.setCr3 b) := by
  split_ifs at h ⊢ <;> exact h

end NoNew

/-- A fault for which a fresh page is mapped: it is not fatal, it lies below the kernel, and there is
no copy-on-write page. -/
def Demands (k : Kernel) (regs : InterruptRegisters) : Prop :=
  let t := k.taskManager k.curPid
  let virtualAddress := regs.cr2 &&& ~~~0xFFF
  let (m, slot) := calculatePagePhysicalEntryAddress (memSetCr3 k.mem t.basePML4)
    (extractPageEntries virtualAddress)
  faultKills t.memoryData regs.cr2 = false ∧ virtualAddress < virtualMemoryBarrier ∧
    m.entry slot &&& cowBit = 0

section Handlers

variable (hQ : Steady Q) {fuel : Nat}

include hQ

/-! ## Signals -/

theorem taskStackPush_noNew {x : U64} (h : taskStackPush k pid x = some k') : NoNew Q k k' := by
  unfold taskStackPush at h
  dsimp only at h
  split at h
  · simp only [Option.bind_eq_bind, Option.bind_eq_some_iff] at h
    obtain ⟨m, hm, h⟩ := h
    cases h
    exact NoNew.setTask (hQ.quiet rfl rfl rfl rfl rfl rfl rfl rfl)
  · cases h
    exact .refl

theorem taskStackPushAll_noNew {xs : List U64} (h : taskStackPushAll k pid xs = some k') :
    NoNew Q k k' := by
  induction xs generalizing k with
  | nil =>
    cases h
    exact .refl
  | cons x xs ih =>
    simp only [taskStackPushAll, Option.bind_eq_bind, Option.bind_eq_some_iff] at h
    obtain ⟨k₁, h₁, h⟩ := h
    exact (taskStackPush_noNew hQ h₁).trans (ih h)

theorem taskStackPop_noNew {x : U64} (h : taskStackPop k pid = some (k', x)) :
    NoNew Q k k' := by
  unfold taskStackPop at h
  dsimp only at h
  split at h
  · simp only [Option.bind_eq_bind, Option.bind_eq_some_iff] at h
    obtain ⟨y, -, h⟩ := h
    cases h
    exact .setRegisters hQ _ _
  · cases h
    exact .refl

theorem taskStackPopAll_noNew {n : Nat} {xs : List U64}
    (h : taskStackPopAll k pid n = some (k', xs)) : NoNew Q k k' := by
  induction n generalizing k xs with
  | zero =>
    cases h
    exact .refl
  | succ n ih =>
    simp only [taskStackPopAll, Option.bind_eq_bind, Option.bind_eq_some_iff, Prod.exists] at h
    obtain ⟨k₁, x, h₁, k₂, ys, h₂, h⟩ := h
    cases h
    exact (taskStackPop_noNew hQ h₁).trans (ih h₂)

theorem establishSignalStack_noNew (h : establishSignalStack k pid = some k') :
    NoNew Q k k' := by
  unfold establishSignalStack at h
  dsimp only at h
  split at h
  · simp only [Option.bind_eq_bind, Option.bind_eq_some_iff] at h
    obtain ⟨k₁, h₁, h⟩ := h
    cases h
    have pushed := (NoNew.setState hQ pid (by decide : ProcessState.creation ≠ .waiting)).trans
      (taskStackPushAll_noNew hQ h₁)
    exact (pushed.trans (.setRegisters hQ _ _)).selected.trans (.setState hQ _ (by decide))
  · cases h
    exact .refl

theorem signalReturn_noNew (h : signalReturn k pid = some k') : NoNew Q k k' := by
  unfold signalReturn at h
  dsimp only at h
  split at h
  · simp only [Option.bind_eq_bind, Option.bind_eq_some_iff, Prod.exists] at h
    obtain ⟨k₁, popped, h₁, h⟩ := h
    cases h
    have popped := ((NoNew.setState hQ pid (by decide : ProcessState.creation ≠ .waiting)).trans
      (.setRegisters hQ _ _)).trans (taskStackPopAll_noNew hQ h₁)
    exact (popped.trans (.setRegisters hQ _ _)).selected.trans (.setState hQ _ (by decide))
  · cases h
    exact .refl

theorem sendSignal_noNew {ident : U32} {a b c d : U64}
    (h : sendSignal k pid ident a b c d = some k') : NoNew Q k k' := by
  unfold sendSignal at h
  dsimp only at h
  split at h
  · cases h
    exact .refl
  have creation := NoNew.setState (k := k) hQ pid (by decide : ProcessState.creation ≠ .waiting)
  split at h
  · simp only [Option.bind_eq_bind, Option.bind_eq_some_iff] at h
    obtain ⟨k₁, h₁, h⟩ := h
    cases h
    exact ((creation.trans (establishSignalStack_noNew hQ h₁)).trans (.setRegisters hQ _ _)).trans
      (.setState hQ _ (by decide))
  · cases h
    exact creation

theorem signalOwner_noNew (origin : Task) (reason : U32) (ret : U64) :
    NoNew Q k (signalOwner k origin reason ret) := by
  unfold signalOwner
  dsimp only
  split_ifs
  · exact .refl
  · exact .setTask (hQ.state rfl rfl rfl rfl rfl fun waits => ready_ne_waiting waits.1)
  · exact .refl

theorem signalParent_noNew {owner : Nat} {ret : U64} (h : signalParent k owner ret = some k') :
    NoNew Q k k' := by
  unfold signalParent at h
  split at h
  · exact sendSignal_noNew hQ h
  · cases h
    exact .refl

/-! ## Task switches -/

theorem taskSwitch_noNew : NoNew Q k (taskSwitch k pid frame).1 := NoNew.setRegisters hQ _ _

/-- Of a killed task nothing is left. -/
theorem forceSwitch_noNew : NoNew Q k (forceSwitch k frame).1 := by
  have left : NoNew Q k (k.setTask k.curPid (descheduled (k.taskManager k.curPid))) := by
    refine .setTask fun hq => ?_
    unfold descheduled at hq
    split_ifs at hq
    · exact absurd hq (hQ.gone rfl)
    · refine hQ.quiet ?_ ?_ ?_ ?_ ?_ ?_ ?_ ?_ hq
      all_goals rfl
  exact (left.trans (.setRegisters hQ k.curPid frame)).trans (taskSwitch_noNew hQ)

/-! ## The handlers but that of system calls -/

theorem handlePageFault_noNew (h : handlePageFault fuel k frame = some (k', frame')) :
    NoNew Q k k' ∨ Demands k frame ∧ ∃ k₁, NoNew Q k k₁ ∧
      (∀ p, ∃ fr, k₁.taskManager p = { k.taskManager p with savedRegisters := fr }) ∧
      demandPage k₁ k.curPid (frame.cr2 &&& ~~~0xFFF) = some k' := by
  have entered : NoNew Q k (k.setRegisters k.curPid frame) := .setRegisters hQ _ _
  unfold handlePageFault at h
  dsimp only at h
  rw [Kernel.setRegisters_memoryData] at h
  split at h
  next =>
    simp only [Option.bind_eq_bind, Option.bind_eq_some_iff, Option.some.injEq] at h
    obtain ⟨k₁, h₁, h⟩ := h
    obtain rfl : (forceSwitch k₁ frame).1 = k' := congrArg Prod.fst h
    obtain ⟨-, tasks, -⟩ := freeTaskMemory_tasks h₁
    have killed := entered.trans (.setState hQ k.curPid (by decide : ProcessState.kill ≠ .waiting))
    exact .inl (((killed.trans (signalOwner_noNew hQ _ _ _)).trans (.of_tasks tasks)).trans
      (forceSwitch_noNew hQ))
  next near =>
    split at h
    next user =>
      split at h
      next unshared =>
        simp only [Option.bind_eq_bind, Option.bind_eq_some_iff] at h
        obtain ⟨k₁, h₁, h⟩ := h
        cases h
        have demands : Demands k frame := by
          rw [Kernel.setRegisters_basePML4] at unshared
          exact ⟨Bool.eq_false_iff.mpr near, user, unshared⟩
        refine .inr ⟨demands, _, ?_, fun p => ?_, h₁⟩
        · exact entered
        · change ∃ fr, (k.setRegisters k.curPid frame).taskManager p = _
          by_cases hp : p = k.curPid
          · rw [hp, Kernel.setRegisters, Kernel.setTask_self]
            exact ⟨frame, rfl⟩
          · exact ⟨_, Kernel.setTask_of_ne _ _ _ hp⟩
      next =>
        simp only [Option.bind_eq_bind, Option.bind_eq_some_iff] at h
        obtain ⟨m, -, h⟩ := h
        cases h
        exact .inl (entered.trans (.of_tasks rfl))
    next =>
      simp only [Option.bind_eq_bind, Option.bind_eq_some_iff, Prod.exists] at h
      obtain ⟨m, a, -, h⟩ := h
      cases h
      exact .inl (entered.trans (.of_tasks rfl))

theorem retireKilled_noNew (h : retireKilled fuel k pid = some k') : NoNew Q k k' := by
  unfold retireKilled at h
  dsimp only at h
  split at h
  · obtain ⟨-, tasks, -⟩ := freeTaskMemory_tasks h
    exact NoNew.trans (.setTask fun hq => absurd hq (hQ.gone rfl)) (.of_tasks tasks)
  · cases h
    exact .refl

theorem timerInterrupt_noNew (h : timerInterrupt fuel k frame = some (k', frame')) :
    NoNew Q k k' := by
  have entered : NoNew Q k (k.setRegisters k.curPid frame) := .setRegisters hQ _ _
  unfold timerInterrupt at h
  dsimp only at h
  split at h
  · cases h
    exact .refl
  split at h
  · simp only [Option.bind_eq_bind, Option.bind_eq_some_iff, Option.some.injEq] at h
    obtain ⟨k₁, h₁, h⟩ := h
    obtain rfl : (taskSwitch k₁ _ frame).1 = k' := congrArg Prod.fst h
    have reset : NoNew Q (k.setRegisters k.curPid frame)
        ((k.setRegisters k.curPid frame).setTask k.curPid
          { (k.setRegisters k.curPid frame).taskManager k.curPid with usedTicks := 0 }) :=
      .setTask (hQ.quiet rfl rfl rfl rfl rfl rfl rfl rfl)
    exact ((entered.trans reset).trans (retireKilled_noNew hQ h₁)).trans (taskSwitch_noNew hQ)
  · cases h
    exact entered.trans (.setTask (hQ.quiet rfl rfl rfl rfl rfl rfl rfl rfl))

theorem fatalException_noNew {garbage : U64}
    (h : fatalException k frame garbage = some (k', frame')) : NoNew Q k k' := by
  unfold fatalException at h
  dsimp only at h
  split at h
  · cases h
  obtain rfl : (forceSwitch _ _).1 = k' := congrArg Prod.fst (Option.some.inj h)
  exact (NoNew.setState hQ k.curPid (by decide : ProcessState.kill ≠ .waiting)).trans
    (forceSwitch_noNew hQ)

theorem deliverLine_noNew (h : deliverLine k pid = some k') : NoNew Q k k' := by
  simp only [deliverLine, Option.bind_eq_bind, Option.bind_eq_some_iff] at h
  obtain ⟨m, -, h⟩ := h
  cases h
  exact NoNew.setTask (hQ.state rfl rfl rfl rfl rfl fun waits => ready_ne_waiting waits.1)

theorem handleKey_noNew {keycode : U8} {release : Bool}
    (h : handleKey k keycode release = some k') : NoNew Q k k' := by
  have typed (c : U8) : NoNew Q k (typeKey k c) := by
    unfold typeKey
    dsimp only
    split_ifs <;> exact .refl
  unfold handleKey at h
  split_ifs at h
  case pos | pos => cases h; exact .refl
  · cases h; exact typed _
  · exact deliverLine_noNew hQ h
  all_goals cases h; exact .refl

theorem handleKeyboardInterrupt_noNew {status scancode : U8}
    (h : handleKeyboardInterrupt k frame status scancode = some (k', frame')) :
    NoNew Q k k' := by
  have entered : NoNew Q k (k.setRegisters k.curPid frame) := .setRegisters hQ _ _
  unfold handleKeyboardInterrupt at h
  dsimp only at h
  split at h
  · cases h
    exact entered
  · simp only [Option.bind_eq_bind, Option.bind_eq_some_iff] at h
    obtain ⟨k₁, h₁, h⟩ := h
    cases h
    exact entered.trans (handleKey_noNew hQ h₁)

/-! ## System calls -/

variable {dev : Devices} {regs : InterruptRegisters} {r : SyscallResult}

theorem setDescriptor_noNew (pid fd : Nat) (d : FileDescriptor) :
    NoNew Q k (setDescriptor k pid fd d) := .setTask (hQ.quiet rfl rfl rfl rfl rfl rfl rfl rfl)

theorem syscallExit_noNew (h : syscallExit k regs = some r) : NoNew Q k r.kernel := by
  simp only [syscallExit, Option.bind_eq_bind, Option.bind_eq_some_iff] at h
  obtain ⟨k₁, h₁, h⟩ := h
  cases h
  have killed : NoNew Q k₁ (killTask k₁ k.curPid) := .setState hQ _ (by decide)
  exact ((signalParent_noNew hQ h₁).trans killed).trans (forceSwitch_noNew hQ)

theorem syscallOpen_noNew (h : syscallOpen fuel dev k regs = some r) : NoNew Q k r.kernel := by
  simp only [syscallOpen, Option.bind_eq_bind, Option.bind_eq_some_iff] at h
  obtain ⟨path, -, h⟩ := h
  split at h <;> cases h
  · exact setDescriptor_noNew hQ _ _ _
  · exact (setDescriptor_noNew hQ _ _ _).trans (setDescriptor_noNew hQ _ _ _)

theorem syscallRead_noNew (h : syscallRead dev k regs = some r) : NoNew Q k r.kernel := by
  unfold syscallRead at h
  dsimp only at h
  split at h
  · cases h
    have waiting : NoNew Q k (k.setTask k.curPid
        { k.taskManager k.curPid with processState := .waiting, waitingReason := .input }) :=
      .setTask (hQ.state rfl rfl rfl rfl rfl fun waits => nomatch waits.2)
    exact waiting.trans (forceSwitch_noNew hQ)
  split at h
  · simp only [Option.bind_eq_bind, Option.bind_eq_some_iff] at h
    obtain ⟨m, -, h⟩ := h
    cases h
    exact .of_tasks rfl
  · cases h
    exact .refl

theorem syscallSigret_noNew (h : syscallSigret k = some r) : NoNew Q k r.kernel := by
  simp only [syscallSigret, Option.bind_eq_bind, Option.bind_eq_some_iff] at h
  obtain ⟨k₁, h₁, h⟩ := h
  cases h
  exact signalReturn_noNew hQ h₁

omit hQ in
/-- Calls that leave the task table alone. -/
theorem syscallWrite_noNew (h : syscallWrite k regs = some r) : NoNew Q k r.kernel := by
  simp only [syscallWrite, Option.bind_eq_bind, Option.bind_eq_some_iff] at h
  obtain ⟨bytes, -, h⟩ := h
  cases h
  exact .refl

omit hQ in
theorem syscallGetdents_noNew (h : syscallGetdents fuel dev k regs = some r) :
    NoNew Q k r.kernel := by
  unfold syscallGetdents at h
  split at h
  · cases h
    exact .refl
  · simp only [Option.bind_eq_bind, Option.bind_eq_some_iff] at h
    obtain ⟨n, -, h⟩ := h
    cases h
    exact .refl

omit hQ in
theorem syscallSysinfo_noNew (h : syscallSysinfo k regs = some r) : NoNew Q k r.kernel := by
  simp only [syscallSysinfo, Option.bind_eq_bind, Option.bind_eq_some_iff] at h
  obtain ⟨m, -, h⟩ := h
  cases h
  exact .of_tasks rfl

/-- Every system call but four. -/
theorem dispatchSyscall_noNew (h : dispatchSyscall fuel dev k regs = some r) :
    NoNew Q k r.kernel ∨ regs.rax = 4 ∧ syscallFork k regs = some r ∨
      regs.rax = 5 ∧ syscallExecve fuel dev k regs = some r ∨
        regs.rax = 6 ∧ r = syscallWait k regs ∨
          r.kernel = registerSignal k k.curPid (regs.rbx.setWidth 32) regs.rcx := by
  unfold dispatchSyscall at h
  dsimp only at h
  split at h
  next => exact .inl (syscallExit_noNew hQ h)
  next => exact .inl (syscallOpen_noNew hQ h)
  next => exact .inl (syscallWrite_noNew h)
  next => exact .inl (syscallRead_noNew hQ h)
  next hrax => exact .inr (.inl ⟨BitVec.eq_of_toNat_eq hrax, h⟩)
  next hrax => exact .inr (.inr (.inl ⟨BitVec.eq_of_toNat_eq hrax, h⟩))
  next hrax =>
    exact .inr (.inr (.inr (.inl ⟨BitVec.eq_of_toNat_eq hrax, (Option.some.inj h).symm⟩)))
  next => cases h; exact .inl (setDescriptor_noNew hQ _ _ _)
  next => cases h; exact .inl (.setTask (hQ.quiet rfl rfl rfl rfl rfl rfl rfl rfl))
  next => cases h; exact .inl .refl
  next => exact .inl (syscallGetdents_noNew h)
  next => exact .inl (syscallSysinfo_noNew h)
  next => cases h; exact .inr (.inr (.inr (.inr rfl)))
  next => exact .inl (syscallSigret_noNew hQ h)
  next => cases h; exact .inl .refl

theorem enteredSyscall_noNew : NoNew Q k (enteredSyscall k i) := .setRegisters hQ _ _

/-- Every interrupt but these faults and calls; a call ends in the common tail or before it. -/
theorem handleInterrupt_steady (h : handleInterrupt k i = some (k', frame)) :
    NoNew Q k k' ∨ (i.cause = .pageFault ∧ Demands k i.frame ∧ ∃ k₁, NoNew Q k k₁ ∧
      (∀ p, ∃ fr, k₁.taskManager p = { k.taskManager p with savedRegisters := fr }) ∧
      demandPage k₁ k.curPid (i.frame.cr2 &&& ~~~0xFFF) = some k') ∨
      ∃ r, i.cause = .syscall ∧ NoNew Q r.kernel k' ∧
        (i.frame.rax = 4 ∧ syscallFork (enteredSyscall k i) i.frame = some r ∨
          i.frame.rax = 5 ∧ syscallExecve i.fuel i.dev (enteredSyscall k i) i.frame = some r ∨
            i.frame.rax = 6 ∧ r = syscallWait (enteredSyscall k i) i.frame ∨
              r.kernel = registerSignal (enteredSyscall k i) k.curPid (i.frame.rbx.setWidth 32)
                i.frame.rcx) := by
  unfold handleInterrupt at h
  split at h
  next => exact .inl (timerInterrupt_noNew hQ h)
  next hi =>
    simp only [handleSyscall, Option.bind_eq_bind, Option.bind_eq_some_iff] at h
    obtain ⟨r, hr, h⟩ := h
    have tail : NoNew Q r.kernel k' := by
      split at h <;> cases h
      · exact .refl
      · exact .setRegisters hQ _ _
    obtain same | call := dispatchSyscall_noNew hQ hr
    · exact .inl (((enteredSyscall_noNew hQ).trans same).trans tail)
    · exact .inr (.inr ⟨r, hi, tail, call⟩)
  next hi =>
    obtain same | demands := handlePageFault_noNew hQ h
    · exact .inl same
    · exact .inr (.inl ⟨hi, demands⟩)
  next => exact .inl (fatalException_noNew hQ h)
  next => exact .inl (fatalException_noNew hQ h)
  next => exact .inl (handleKeyboardInterrupt_noNew hQ h)

end Handlers

/-! ## Properties that look at neither regions nor signals -/

theorem registerSignal_noNew (hQ : Settled Q) (pid : Nat) (ident : U32) (entry : U64) :
    NoNew Q k (registerSignal k pid ident entry) := by
  unfold registerSignal
  dsimp only
  split
  · exact .setTask (hQ.quiet rfl rfl rfl rfl rfl rfl)
  · exact .refl

/-- Every interrupt but these three calls. -/
theorem handleInterrupt_noNew (hQ : Settled Q) (h : handleInterrupt k i = some (k', frame)) :
    NoNew Q k k' ∨ ∃ r, i.cause = .syscall ∧ NoNew Q r.kernel k' ∧
      (i.frame.rax = 4 ∧ syscallFork (enteredSyscall k i) i.frame = some r ∨
        i.frame.rax = 5 ∧ syscallExecve i.fuel i.dev (enteredSyscall k i) i.frame = some r ∨
          i.frame.rax = 6 ∧ r = syscallWait (enteredSyscall k i) i.frame) := by
  obtain none | ⟨-, -, k₁, entered, -, paged⟩ | ⟨r, hi, tail, call⟩ :=
    handleInterrupt_steady hQ.steady h
  · exact .inl none
  · exact .inl (entered.trans (.keepsTasks hQ (demandPage_keeps paged)))
  · obtain fork | execve | wait | registered := call
    · exact .inr ⟨r, hi, tail, .inl fork⟩
    · exact .inr ⟨r, hi, tail, .inr (.inl execve)⟩
    · exact .inr ⟨r, hi, tail, .inr (.inr wait)⟩
    · have registers := registered ▸ registerSignal_noNew hQ k.curPid (i.frame.rbx.setWidth 32)
        i.frame.rcx
      exact .inl (((enteredSyscall_noNew hQ.steady).trans registers).trans tail)

end ChudOS
