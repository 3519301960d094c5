import ChudOS.ChildWait

/-!
# Blocked reads

`READ` on descriptor 0 makes its caller wait until the keyboard handler has a line for it. The one
byte that says so is overwritten by `SendSignal` and `SignalReturn` as well.

## Main definitions

* `Reads` — the task waits for input, with the frame of its `READ`.
* `Reader` — the kernel with the reads that no line has been delivered to.
* `Disturbs` — the interrupt makes a waiting reader ready without a line.
-/

namespace ChudOS

open Transition

variable {k k' k'' : Kernel} {i : Interrupt} {frame frame' fr : InterruptRegisters} {p : Nat}

/-- The task exists and waits for input, and will go on with the frame `fr`. -/
def Reads (fr : InterruptRegisters) (t : Task) : Prop :=
  t.exist = true ∧ t.processState = .waiting ∧ t.waitingReason = .input ∧ t.savedRegisters = fr

/-- The task `p` goes on waiting for input, if it does. -/
def KeepsReading (p : Nat) (k k' : Kernel) : Prop :=
  ∀ fr, Reads fr (k.taskManager p) → Reads fr (k'.taskManager p)

namespace KeepsReading

theorem refl : KeepsReading p k k := fun _ h => h

theorem trans (h : KeepsReading p k k') (g : KeepsReading p k' k'') : KeepsReading p k k'' :=
  fun fr hp => g fr (h fr hp)

theorem of_tasks (h : k'.taskManager = k.taskManager) : KeepsReading p k k' :=
  fun _ hp => h ▸ hp

theorem only {pid : Nat} (h : OnlyTask pid k k') (hp : p ≠ pid) : KeepsReading p k k' :=
  fun _ reads => (h p hp).symm ▸ reads

theorem setTask {pid : Nat} (hp : p ≠ pid) (t : Task) : KeepsReading p k (k.setTask pid t) :=
  only (.setTask t) hp

theorem keepsTasks (h : KeepsTasks k k') : KeepsReading p k k' := by
  intro _ reads
  rw [h.task p]
  exact reads

end KeepsReading

/-! ## The handlers -/

section Handlers

variable {fuel : Nat} {dev : Devices} {regs : InterruptRegisters} {r : SyscallResult}

/-- The end of a child concerns only a parent that waits for a child. -/
theorem signalOwner_reading (origin : Task) (reason : U32) (ret : U64) :
    KeepsReading p k (signalOwner k origin reason ret) := by
  intro fr reads
  unfold signalOwner
  dsimp only
  split_ifs with none told
  · exact reads
  · by_cases hp : p = origin.ownerPID
    · have input := reads.2.2.1
      rw [hp, told.2.1] at input
      cases input
    · rwa [Kernel.setTask_of_ne _ _ _ hp]
  · exact reads

theorem handlePageFault_reading (h : handlePageFault fuel k frame = some (k', frame'))
    (hp : p ≠ k.curPid) : KeepsReading p k k' := by
  have entered : KeepsReading p k (k.setRegisters k.curPid frame) := .setTask hp _
  unfold handlePageFault at h
  dsimp only at h
  split at h
  next =>
    simp only [Option.bind_eq_bind, Option.bind_eq_some_iff, Option.some.injEq] at h
    obtain ⟨k₁, h₁, h⟩ := h
    obtain rfl : (forceSwitch k₁ frame).1 = k' := congrArg Prod.fst h
    obtain ⟨cur, tasks, -⟩ := freeTaskMemory_tasks h₁
    have killed : KeepsReading p (k.setRegisters k.curPid frame)
        (killTask (k.setRegisters k.curPid frame) k.curPid) := .setTask hp _
    exact ((entered.trans killed).trans (signalOwner_reading _ _ _)).trans
      ((KeepsReading.of_tasks tasks).trans (.only (forceSwitch_only cur) hp))
  next =>
    split at h
    · split at h
      · simp only [Option.bind_eq_bind, Option.bind_eq_some_iff] at h
        obtain ⟨k₁, h₁, h⟩ := h
        cases h
        have paged := KeepsReading.keepsTasks (p := p) (demandPage_keeps h₁)
        exact fun fr reads => paged fr (entered fr reads)
      · simp only [Option.bind_eq_bind, Option.bind_eq_some_iff] at h
        obtain ⟨m, -, h⟩ := h
        cases h
        exact entered
    · simp only [Option.bind_eq_bind, Option.bind_eq_some_iff, Prod.exists] at h
      obtain ⟨m, a, -, h⟩ := h
      cases h
      exact entered

/-- A signal is sent to a task with a handler only. -/
theorem syscallExit_reading (h : syscallExit k regs = some r) (hp : p ≠ k.curPid)
    (agree : k.mem.paging.cr3 = k.mem.paging.pml4Physical)
    (spared : p = (k.taskManager k.curPid).ownerPID →
      ((k.taskManager p).signals sigchd.toNat).registered = false) :
    KeepsReading p k r.kernel := by
  simp only [syscallExit, Option.bind_eq_bind, Option.bind_eq_some_iff] at h
  obtain ⟨k₁, h₁, h⟩ := h
  cases h
  have cur := signalParent_curPid agree h₁
  have sent : KeepsReading p k k₁ := by
    unfold signalParent at h₁
    split at h₁
    · obtain ⟨only, sent⟩ := sendSignal_cases h₁
      by_cases owner : p = (k.taskManager k.curPid).ownerPID
      · have none := spared owner
        rw [owner] at none
        obtain ⟨rfl, -⟩ | ⟨⟨registered, -⟩, -⟩ | ⟨registered, -⟩ := sent
        · exact .refl
        · rw [none] at registered
          cases registered
        · rw [none] at registered
          cases registered
      · exact .only only owner
    · cases h₁
      exact .refl
  exact sent.trans ((KeepsReading.setTask hp _).trans
    (.only (forceSwitch_only (k := killTask k₁ _) cur) hp))

theorem syscallOpen_reading (h : syscallOpen fuel dev k regs = some r) (hp : p ≠ k.curPid) :
    KeepsReading p k r.kernel := by
  simp only [syscallOpen, Option.bind_eq_bind, Option.bind_eq_some_iff] at h
  obtain ⟨path, -, h⟩ := h
  split at h <;> cases h
  · exact .setTask hp _
  · exact (KeepsReading.setTask hp _).trans (.setTask hp _)

theorem syscallRead_reading (h : syscallRead dev k regs = some r) (hp : p ≠ k.curPid) :
    KeepsReading p k r.kernel := by
  unfold syscallRead at h
  dsimp only at h
  split at h
  · cases h
    exact (KeepsReading.setTask hp _).trans (.only (forceSwitch_only rfl) hp)
  split at h
  · simp only [Option.bind_eq_bind, Option.bind_eq_some_iff] at h
    obtain ⟨m, -, h⟩ := h
    cases h
    exact .refl
  · cases h
    exact .refl

/-- The slot that `fork` fills is not that of a task. With a full table it is slot 1. -/
theorem createChild_reading {child : Nat} (h : createChild k regs = some (k', child))
    (free : p = 1 → findFreePID k ≠ taskCount + 1) (exist : (k.taskManager p).exist = true) :
    p ≠ child ∧ KeepsReading p k k' := by
  simp only [createChild, Option.bind_eq_bind, Option.bind_eq_some_iff, Prod.exists] at h
  obtain ⟨k₁, pml4, h₁, h⟩ := h
  cases h
  obtain ⟨other, same⟩ := registerTask_others exist free
    (k.taskManager k.curPid).memoryData.baseVirtualAddress regs.rip
    (k.taskManager k.curPid).memoryData.pageCount (k.taskManager k.curPid).maxTicks regs.rbp
    (k.taskManager k.curPid).basePML4
  have registered : KeepsReading p k (registerTask k
      (k.taskManager k.curPid).memoryData.baseVirtualAddress regs.rip
      (k.taskManager k.curPid).memoryData.pageCount (k.taskManager k.curPid).maxTicks regs.rbp
      (k.taskManager k.curPid).basePML4).1 := fun _ reads => same.symm ▸ reads
  have created := KeepsReading.keepsTasks (p := p) (kernelCreateUserMemory_keeps h₁)
  exact ⟨other, registered.trans ((KeepsReading.setTask other _).trans
    (created.trans (.setTask other _)))⟩

theorem syscallFork_reading (h : syscallFork k regs = some r) (hp : p ≠ k.curPid)
    (free : p = 1 → findFreePID k ≠ taskCount + 1) (exist : (k.taskManager p).exist = true) :
    KeepsReading p k r.kernel := by
  simp only [syscallFork, Option.bind_eq_bind, Option.bind_eq_some_iff, Prod.exists] at h
  obtain ⟨k₁, child, h₁, k₂, h₂, k₃, h₃, h⟩ := h
  cases h
  obtain ⟨other, created⟩ := createChild_reading h₁ free exist
  have shared := KeepsReading.of_tasks (p := p) (shareRegions_tasks h₂)
  have stack := KeepsReading.keepsTasks (p := p) (giveKernelStack_keeps h₃)
  have ready : KeepsReading p (k₃.enter k.curPid) ((k₃.enter k.curPid).setTask child
      { k₃.taskManager child with ownerPID := k.curPid, processState := .ready }) :=
    .setTask other _
  exact fun fr reads => ready fr <| stack fr <| shared fr <|
    KeepsReading.setTask hp _ fr <| created fr reads

theorem syscallExecve_reading (h : syscallExecve fuel dev k regs = some r) (hp : p ≠ k.curPid) :
    KeepsReading p k r.kernel := by
  unfold syscallExecve at h
  dsimp only at h
  split at h
  · cases h
    exact .refl
  simp only [Option.bind_eq_bind, Option.bind_eq_some_iff, Prod.exists] at h
  obtain ⟨k₁, pml4, h₁, n, -, k₂, h₂, m, -, h⟩ := h
  cases h
  have same := (kernelCreateUserMemory_keeps h₁).curPid
  have created := KeepsReading.keepsTasks (p := p) (kernelCreateUserMemory_keeps h₁)
  have creation : KeepsReading p k₁ (k₁.setState k.curPid .creation) := .setTask hp _
  have loaded : k₂.curPid = k.curPid ∧
      KeepsReading p (k₁.setState k.curPid .creation) k₂ := by
    obtain rfl | ⟨-, cur, -, -, others⟩ := loadElfStrict_tasks h₂
    · exact ⟨same, .refl⟩
    · refine ⟨cur.trans same, fun fr reads => ?_⟩
      obtain ⟨d, kept⟩ := others p (by simpa [same] using hp)
      rw [kept]
      exact reads
  obtain ⟨cur, loaded⟩ := loaded
  have installed : KeepsReading p { k₂ with mem := m } ({ k₂ with mem := m }.setTask k.curPid
      { k₂.taskManager k.curPid with
        ownerPID := (k.taskManager k.curPid).ownerPID, processState := .ready }) :=
    .setTask hp _
  refine KeepsReading.trans (fun fr reads => ?_) (.only (forceSwitch_only cur) hp)
  exact installed fr (loaded fr (creation fr (created fr reads)))

theorem syscallSigret_reading (h : syscallSigret k = some r) (hp : p ≠ k.curPid) :
    KeepsReading p k r.kernel := by
  simp only [syscallSigret, Option.bind_eq_bind, Option.bind_eq_some_iff] at h
  obtain ⟨k₁, h₁, h⟩ := h
  cases h
  exact .only (signalReturn_ready h₁).1 hp

theorem registerSignal_only (pid : Nat) (ident : U32) (entry : U64) :
    OnlyTask pid k (registerSignal k pid ident entry) := by
  unfold registerSignal
  dsimp only
  split
  · exact .setTask _
  · exact .refl

/-- Calls that leave the task table alone. -/
theorem syscallWrite_tasks (h : syscallWrite k regs = some r) :
    r.kernel.taskManager = k.taskManager := by
  simp only [syscallWrite, Option.bind_eq_bind, Option.bind_eq_some_iff] at h
  obtain ⟨bytes, -, h⟩ := h
  cases h
  rfl

theorem syscallGetdents_tasks (h : syscallGetdents fuel dev k regs = some r) :
    r.kernel.taskManager = k.taskManager := by
  unfold syscallGetdents at h
  split at h
  · cases h
    rfl
  · simp only [Option.bind_eq_bind, Option.bind_eq_some_iff] at h
    obtain ⟨n, -, h⟩ := h
    cases h
    rfl

theorem syscallSysinfo_tasks (h : syscallSysinfo k regs = some r) :
    r.kernel.taskManager = k.taskManager := by
  simp only [syscallSysinfo, Option.bind_eq_bind, Option.bind_eq_some_iff] at h
  obtain ⟨m, -, h⟩ := h
  cases h
  rfl

/-- The interrupt makes a reader ready without a line for it: `EXIT` of a child, when the reader has
registered a handler for that; or `fork` with a full table, which overwrites slot 1. -/
def Disturbs (k : Kernel) (i : Interrupt) (p : Nat) : Prop :=
  i.cause = .syscall ∧ (i.frame.rax = 0 ∧ p = (k.taskManager k.curPid).ownerPID ∧
      ((k.taskManager p).signals sigchd.toNat).registered = true ∨
    i.frame.rax = 4 ∧ p = 1 ∧ findFreePID k = taskCount + 1)

theorem dispatchSyscall_reading (h : dispatchSyscall fuel dev k regs = some r) (hp : p ≠ k.curPid)
    (agree : k.mem.paging.cr3 = k.mem.paging.pml4Physical)
    (exist : (k.taskManager p).exist = true)
    (exit : regs.rax = 0 → p = (k.taskManager k.curPid).ownerPID →
      ((k.taskManager p).signals sigchd.toNat).registered = false)
    (fork : regs.rax = 4 → p = 1 → findFreePID k ≠ taskCount + 1) :
    KeepsReading p k r.kernel := by
  unfold dispatchSyscall at h
  dsimp only at h
  split at h
  next hrax => exact syscallExit_reading h hp agree (exit (BitVec.eq_of_toNat_eq hrax))
  next => exact syscallOpen_reading h hp
  next => exact .of_tasks (syscallWrite_tasks h)
  next => exact syscallRead_reading h hp
  next hrax => exact syscallFork_reading h hp (fork (BitVec.eq_of_toNat_eq hrax)) exist
  next => exact syscallExecve_reading h hp
  next => cases h; exact .only syscallWait_only hp
  next => cases h; exact .setTask hp _
  next => cases h; exact .setTask hp _
  next => cases h; exact .refl
  next => exact .of_tasks (syscallGetdents_tasks h)
  next => exact .of_tasks (syscallSysinfo_tasks h)
  next => cases h; exact .only (registerSignal_only _ _ _) hp
  next => exact syscallSigret_reading h hp
  next => cases h; exact .refl

theorem handleSyscall_reading (hi : i.cause = .syscall)
    (h : handleSyscall i.fuel i.dev k i.frame = some (k', frame)) (hp : p ≠ k.curPid)
    (exist : (k.taskManager p).exist = true) (undisturbed : ¬Disturbs k i p) :
    KeepsReading p k k' := by
  have entered : KeepsReading p k (enteredSyscall k i) := .only enteredSyscall_only hp
  have same : (enteredSyscall k i).taskManager p = k.taskManager p := enteredSyscall_only p hp
  simp only [handleSyscall, Option.bind_eq_bind, Option.bind_eq_some_iff] at h
  obtain ⟨r, hr, h⟩ := h
  have called : KeepsReading p (enteredSyscall k i) r.kernel := by
    refine dispatchSyscall_reading hr hp rfl (same ▸ exist) (fun hrax owner => ?_)
      fun hrax slot full => undisturbed ⟨hi, .inr ⟨hrax, slot, ?_⟩⟩
    · rw [enteredSyscall_field Task.ownerPID fun _ _ => rfl] at owner
      by_contra registered
      rw [same, Bool.not_eq_false] at registered
      exact undisturbed ⟨hi, .inl ⟨hrax, owner, registered⟩⟩
    · rwa [← enteredSyscall_freePID k i]
  split at h <;> cases h
  · exact entered.trans called
  · exact (entered.trans called).trans (.setTask hp _)

/-- The task the line goes to, when the key is `enter`. -/
def deliversTo (k : Kernel) (i : Interrupt) : Option Nat :=
  match i.cause with
  | .keyboard status scancode =>
    if status &&& 1 ≠ 0 ∧ scancode = keyCodeEnter ∧ getWaitingProgram k ≠ 512
      then some (getWaitingProgram k) else none
  | _ => none

theorem deliverLine_only {pid : Nat} (h : deliverLine k pid = some k') : OnlyTask pid k k' := by
  simp only [deliverLine, Option.bind_eq_bind, Option.bind_eq_some_iff] at h
  obtain ⟨m, -, h⟩ := h
  cases h
  exact fun p hp => Kernel.setTask_of_ne _ _ _ hp

theorem getWaitingProgram_setRegisters (pid : Nat) (r : InterruptRegisters) :
    getWaitingProgram (k.setRegisters pid r) = getWaitingProgram k := by
  have state := Kernel.setTask_field k pid { k.taskManager pid with savedRegisters := r }
    Task.processState rfl
  have reason := Kernel.setTask_field k pid { k.taskManager pid with savedRegisters := r }
    Task.waitingReason rfl
  simp only [getWaitingProgram, Kernel.setRegisters_exist]
  simp only [Kernel.setRegisters, state, reason]

/-- Only `enter` reaches a reader. -/
theorem handleKey_cases {keycode : U8} {release : Bool} (h : handleKey k keycode release = some k') :
    k'.taskManager = k.taskManager ∨ keycode = keyCodeEnter ∧ release = false ∧
      getWaitingProgram k ≠ 512 ∧ OnlyTask (getWaitingProgram k) k k' := by
  unfold handleKey at h
  split_ifs at h with shift capslock pressed printable entered
  · cases h; exact .inl rfl
  · cases h; exact .inl rfl
  · cases h
    left
    unfold typeKey
    dsimp only
    split_ifs <;> rfl
  · exact .inr ⟨entered.1, pressed.2.2, entered.2, deliverLine_only h⟩
  · cases h; exact .inl rfl
  · cases h; exact .inl rfl

theorem handleKeyboardInterrupt_reading {status scancode : U8}
    (hi : i.cause = .keyboard status scancode)
    (h : handleKeyboardInterrupt k i.frame status scancode = some (k', frame)) (hp : p ≠ k.curPid)
    (undelivered : deliversTo k i ≠ some p) : KeepsReading p k k' := by
  have entered : KeepsReading p k (k.setRegisters k.curPid i.frame) := .setTask hp _
  unfold handleKeyboardInterrupt at h
  dsimp only at h
  split at h
  next => cases h; exact entered
  next full =>
    simp only [Option.bind_eq_bind, Option.bind_eq_some_iff] at h
    obtain ⟨k₁, h₁, h⟩ := h
    cases h
    obtain tasks | ⟨enter, pressed, waiting, only⟩ := handleKey_cases h₁
    · exact entered.trans (.of_tasks tasks)
    · rw [getWaitingProgram_setRegisters] at waiting only
      refine entered.trans (.only only fun reader => undelivered ?_)
      rw [pressed, if_neg Bool.false_ne_true] at enter
      rw [deliversTo, hi]
      exact (if_pos ⟨full, enter, waiting⟩).trans (congrArg some reader.symm)

/-- What becomes of a reader that is not current: it goes on waiting, unless it is disturbed, or the
line is for it. -/
theorem handleInterrupt_reading (h : handleInterrupt k i = some (k', frame)) (hp : p ≠ k.curPid)
    (exist : (k.taskManager p).exist = true) (undisturbed : ¬Disturbs k i p)
    (undelivered : deliversTo k i ≠ some p) : KeepsReading p k k' := by
  unfold handleInterrupt at h
  split at h
  next => exact .only (timerInterrupt_only h) hp
  next hi => exact handleSyscall_reading hi h hp exist undisturbed
  next => exact handlePageFault_reading h hp
  next => exact .only (fatalException_only h) hp
  next => exact .only (fatalException_only h) hp
  next status scancode hi => exact handleKeyboardInterrupt_reading hi h hp undelivered

end Handlers

/-! ## The task that goes on -/

/-- The current task goes on, or the idle task, or one that is ready. -/
def GoesOn (k k' : Kernel) : Prop :=
  k'.curPid = k.curPid ∨ k'.curPid = 0 ∨ (k'.taskManager k'.curPid).processState = .ready

theorem findNextTask_ready (k : Kernel) (cur : Nat) :
    findNextTask k cur = 0 ∨ (k.taskManager (findNextTask k cur)).processState = .ready := by
  unfold findNextTask
  split
  · exact .inl rfl
  · cases h : (List.range 512).find? fun i =>
        decide (cur < i) && (k.taskManager i).exist && (k.taskManager i).processState == .ready with
    | none => exact .inl rfl
    | some n =>
      have found := List.find?_some h
      simp only [Bool.and_eq_true, beq_iff_eq] at found
      exact .inr found.2

theorem taskSwitch_goesOn {pid : Nat}
    (h : pid = 0 ∨ (k'.taskManager pid).processState = .ready) :
    GoesOn k (taskSwitch k' pid frame).1 := by
  refine .inr (h.imp_right fun ready => ?_)
  exact (Kernel.setTask_field k' _ { k'.taskManager k'.curPid with savedRegisters := frame }
    Task.processState rfl pid).trans ready

theorem forceSwitch_goesOn : GoesOn k (forceSwitch k' frame).1 := by
  refine taskSwitch_goesOn ((findNextTask_ready _ _).imp_right fun ready => ?_)
  exact (Kernel.setTask_field _ k'.curPid _ Task.processState (by rfl) _).trans ready

theorem timerInterrupt_goesOn {fuel : Nat}
    (h : timerInterrupt fuel k frame = some (k', frame')) : GoesOn k k' := by
  unfold timerInterrupt at h
  dsimp only at h
  split at h
  · cases h
    exact .inl rfl
  split at h
  · simp only [Option.bind_eq_bind, Option.bind_eq_some_iff, Option.some.injEq] at h
    obtain ⟨k₁, -, h⟩ := h
    obtain rfl : (taskSwitch k₁ _ frame).1 = k' := congrArg Prod.fst h
    exact taskSwitch_goesOn (findNextTask_ready k₁ k.curPid)
  · cases h
    exact .inl rfl

theorem handlePageFault_goesOn {fuel : Nat}
    (h : handlePageFault fuel k frame = some (k', frame')) : GoesOn k k' := by
  unfold handlePageFault at h
  dsimp only at h
  split at h
  · simp only [Option.bind_eq_bind, Option.bind_eq_some_iff, Option.some.injEq] at h
    obtain ⟨k₁, -, h⟩ := h
    obtain rfl : (forceSwitch k₁ frame).1 = k' := congrArg Prod.fst h
    exact forceSwitch_goesOn
  split at h
  · split at h
    · simp only [Option.bind_eq_bind, Option.bind_eq_some_iff] at h
      obtain ⟨k₁, h₁, h⟩ := h
      cases h
      exact .inl (demandPage_keeps h₁).curPid
    · simp only [Option.bind_eq_bind, Option.bind_eq_some_iff] at h
      obtain ⟨m, -, h⟩ := h
      cases h
      exact .inl rfl
  · simp only [Option.bind_eq_bind, Option.bind_eq_some_iff, Prod.exists] at h
    obtain ⟨m, a, -, h⟩ := h
    cases h
    exact .inl rfl

theorem fatalException_goesOn {garbage : U64}
    (h : fatalException k frame garbage = some (k', frame')) : GoesOn k k' := by
  unfold fatalException at h
  dsimp only at h
  split at h
  · cases h
  obtain rfl : (forceSwitch _ _).1 = k' := congrArg Prod.fst (Option.some.inj h)
  exact forceSwitch_goesOn

theorem handleKeyboardInterrupt_goesOn {status scancode : U8}
    (h : handleKeyboardInterrupt k frame status scancode = some (k', frame')) : GoesOn k k' := by
  unfold handleKeyboardInterrupt at h
  dsimp only at h
  split at h
  · cases h
    exact .inl rfl
  · simp only [Option.bind_eq_bind, Option.bind_eq_some_iff] at h
    obtain ⟨k₁, h₁, h⟩ := h
    cases h
    exact .inl (handleKey_stays h₁).curPid

section Calls

variable {fuel : Nat} {dev : Devices} {regs : InterruptRegisters} {r : SyscallResult}

theorem syscallRead_goesOn (h : syscallRead dev k regs = some r) : GoesOn k r.kernel := by
  unfold syscallRead at h
  dsimp only at h
  split at h
  · cases h
    exact forceSwitch_goesOn
  split at h
  · simp only [Option.bind_eq_bind, Option.bind_eq_some_iff] at h
    obtain ⟨m, -, h⟩ := h
    cases h
    exact .inl rfl
  · cases h
    exact .inl rfl

theorem syscallExecve_goesOn (h : syscallExecve fuel dev k regs = some r) : GoesOn k r.kernel := by
  unfold syscallExecve at h
  dsimp only at h
  split at h
  · cases h
    exact .inl rfl
  · simp only [Option.bind_eq_bind, Option.bind_eq_some_iff, Prod.exists] at h
    obtain ⟨k₁, pml4, -, n, -, k₂, -, m, -, h⟩ := h
    cases h
    exact forceSwitch_goesOn

theorem syscallWait_goesOn : GoesOn k (syscallWait k regs).kernel := by
  unfold syscallWait
  dsimp only
  split
  · exact .inl rfl
  · exact forceSwitch_goesOn

theorem dispatchSyscall_goesOn (agree : k.mem.paging.cr3 = k.mem.paging.pml4Physical)
    (h : dispatchSyscall fuel dev k regs = some r) : GoesOn k r.kernel := by
  unfold dispatchSyscall at h
  dsimp only at h
  split at h
  · simp only [syscallExit, Option.bind_eq_bind, Option.bind_eq_some_iff] at h
    obtain ⟨k₁, -, h⟩ := h
    cases h
    exact forceSwitch_goesOn
  · simp only [syscallOpen, Option.bind_eq_bind, Option.bind_eq_some_iff] at h
    obtain ⟨path, -, h⟩ := h
    split at h <;> (cases h; exact .inl rfl)
  · simp only [syscallWrite, Option.bind_eq_bind, Option.bind_eq_some_iff] at h
    obtain ⟨bytes, -, h⟩ := h
    cases h
    exact .inl rfl
  · exact syscallRead_goesOn h
  · simp only [syscallFork, Option.bind_eq_bind, Option.bind_eq_some_iff, Prod.exists] at h
    obtain ⟨k₁, child, -, k₂, -, k₃, -, h⟩ := h
    cases h
    exact .inl rfl
  · exact syscallExecve_goesOn h
  · cases h
    exact syscallWait_goesOn
  · cases h
    exact .inl rfl
  · cases h
    exact .inl rfl
  · cases h
    exact .inl rfl
  · unfold syscallGetdents at h
    split at h
    · cases h
      exact .inl rfl
    · simp only [Option.bind_eq_bind, Option.bind_eq_some_iff] at h
      obtain ⟨n, -, h⟩ := h
      cases h
      exact .inl rfl
  · simp only [syscallSysinfo, Option.bind_eq_bind, Option.bind_eq_some_iff] at h
    obtain ⟨m, -, h⟩ := h
    cases h
    exact .inl rfl
  · cases h
    exact .inl (registerSignal_stays _ _ _).curPid
  · simp only [syscallSigret, Option.bind_eq_bind, Option.bind_eq_some_iff] at h
    obtain ⟨k₁, h₁, h⟩ := h
    cases h
    exact .inl (signalReturn_keeps agree h₁).curPid
  · cases h
    exact .inl rfl

theorem handleSyscall_goesOn (h : handleSyscall i.fuel i.dev k i.frame = some (k', frame)) :
    GoesOn k k' := by
  simp only [handleSyscall, Option.bind_eq_bind, Option.bind_eq_some_iff] at h
  obtain ⟨r, hr, h⟩ := h
  have called : GoesOn k r.kernel := dispatchSyscall_goesOn (k := enteredSyscall k i) rfl hr
  split at h <;> cases h
  · exact called
  · refine called.imp_right (Or.imp_right fun ready => ?_)
    exact (Kernel.setTask_field r.kernel _ { r.kernel.taskManager k.curPid with
      savedRegisters := r.frame } Task.processState rfl _).trans ready

end Calls

theorem handleInterrupt_goesOn (h : handleInterrupt k i = some (k', frame)) : GoesOn k k' := by
  unfold handleInterrupt at h
  split at h
  next => exact timerInterrupt_goesOn h
  next => exact handleSyscall_goesOn h
  next => exact handlePageFault_goesOn h
  next => exact fatalException_goesOn h
  next => exact fatalException_goesOn h
  next => exact handleKeyboardInterrupt_goesOn h

/-- The current task exists, unless it is the idle task. -/
def CurrentExists (k : Kernel) : Prop := k.curPid = 0 ∨ (k.taskManager k.curPid).exist = true

theorem CurrentExists.step (h : CurrentExists k) (handled : handleInterrupt k i = some (k', frame)) :
    CurrentExists k' := by
  cases handleInterrupt_outcome handled with
  | stays stays =>
    unfold CurrentExists
    rw [stays.curPid]
    exact h.imp_right (stays.alive _)
  | switches _ switched _ => exact switched.next
  | @waits k₁ _ _ switched _ =>
    exact switched.next.imp_right fun exist =>
      ((KeepsSpaces.setRegisters (k := k₁) k.curPid frame).exist _).trans exist
  | fatal _ switched _ _ => exact switched.next

/-- `pending p` is the frame with which task `p` called `READ` on descriptor 0, when no line has
been delivered to it since. -/
structure Readers where
  kernel : Kernel
  pending : Nat → Option InterruptRegisters

/-- The system call `READ` on descriptor 0. -/
def ReadsInput (i : Interrupt) : Prop :=
  i.cause = .syscall ∧ i.frame.rax = 3 ∧ i.frame.rdx = 0

instance (i : Interrupt) : Decidable (ReadsInput i) := inferInstanceAs (Decidable (_ ∧ _))

/-- The readers after the interrupt `i`, which left the kernel `k'`. -/
def Readers.after (s : Readers) (i : Interrupt) (k' : Kernel) : Readers where
  kernel := k'
  pending p :=
    if ReadsInput i ∧ p = s.kernel.curPid then some i.frame
    else if deliversTo s.kernel i = some p ∨ (k'.taskManager p).exist = false then none
    else s.pending p

inductive ReadersStep : Readers → Event → Readers → Prop
  | interrupt {s : Readers} {i : Interrupt} {k' : Kernel} {frame : InterruptRegisters} :
      handleInterrupt s.kernel i = some (k', frame) → ReadersStep s (.interrupt i) (s.after i k')
  | user (s : Readers) (ram : Nat → Nat → U64) : ReadersStep s (.user ram)
      { s with kernel := { s.kernel with mem := { s.kernel.mem with ram := ram } } }

variable {s : Readers}

/-- The caller of `READ` is not the idle task, no reader is disturbed, and what the handler touches
is mapped, the buffer of a reader that gets a line among it. -/
def Undisturbed (s : Readers) : Event → Prop
  | .interrupt i => (ReadsInput i → s.kernel.curPid ≠ 0) ∧
      (∀ p fr, s.pending p = some fr → ¬Disturbs s.kernel i p) ∧ ¬FaultsInside s.kernel i
  | .user _ => True

/-- The invariant: a reader is not the current task, and waits. -/
structure Readers.Sound (s : Readers) : Prop where
  current : CurrentExists s.kernel
  away : ∀ p fr, s.pending p = some fr → p ≠ 0 ∧ p ≠ s.kernel.curPid
  reads : ∀ p fr, s.pending p = some fr → Reads fr (s.kernel.taskManager p)

theorem syscallRead_blocks {dev : Devices} {regs : InterruptRegisters} {r : SyscallResult}
    (input : regs.rdx = 0) (h : syscallRead dev k regs = some r)
    (exist : (k.taskManager k.curPid).exist = true) :
    Reads regs (r.kernel.taskManager k.curPid) ∧ r.yielded = true := by
  rw [syscallRead, if_pos input] at h
  cases h
  simp [yields, forceSwitch, taskSwitch, descheduled, Kernel.setRegisters, Reads, exist]

theorem syscallRead_leaves {dev : Devices} {regs : InterruptRegisters} {r : SyscallResult}
    (input : regs.rdx = 0) (h : syscallRead dev k regs = some r) (user : k.curPid ≠ 0) :
    r.kernel.curPid ≠ k.curPid := by
  rw [syscallRead, if_pos input] at h
  cases h
  intro same
  change findNextTask _ k.curPid = k.curPid at same
  obtain idle | ⟨above, -⟩ := findNextTask_spec _ k.curPid
  · exact user (same.symm.trans idle)
  · exact Nat.ne_of_gt above same

/-- The caller of `READ` waits, and another task goes on. -/
theorem read_waits (reads : ReadsInput i) (h : handleInterrupt k i = some (k', frame))
    (user : k.curPid ≠ 0) (exist : (k.taskManager k.curPid).exist = true) :
    Reads i.frame (k'.taskManager k.curPid) ∧ k'.curPid ≠ k.curPid := by
  obtain ⟨hi, hrax, hrdx⟩ := reads
  simp only [handleInterrupt, hi, handleSyscall, Option.bind_eq_bind, Option.bind_eq_some_iff] at h
  obtain ⟨r, hr, h⟩ := h
  have dispatched : syscallRead i.dev (enteredSyscall k i) i.frame = some r := by
    have dispatched : dispatchSyscall i.fuel i.dev (enteredSyscall k i) i.frame = some r := hr
    simpa [dispatchSyscall, hrax] using dispatched
  have entered : ((enteredSyscall k i).taskManager k.curPid).exist = true :=
    (enteredSyscall_field Task.exist (fun _ _ => rfl) _).trans exist
  obtain ⟨waits, yielded⟩ := syscallRead_blocks hrdx dispatched entered
  have leaves : r.kernel.curPid ≠ k.curPid :=
    syscallRead_leaves (k := enteredSyscall k i) hrdx dispatched user
  rw [if_pos yielded] at h
  obtain rfl : r.kernel = k' := congrArg Prod.fst (Option.some.inj h)
  exact ⟨waits, leaves⟩

theorem Readers.after_caller (reads : ReadsInput i) :
    (s.after i k').pending s.kernel.curPid = some i.frame := by
  simp [Readers.after, reads]

/-- A read of before the interrupt is pending after it when no line went to the task. -/
theorem Readers.after_others (began : ¬(ReadsInput i ∧ p = s.kernel.curPid))
    (pending : (s.after i k').pending p = some fr) :
    deliversTo s.kernel i ≠ some p ∧ s.pending p = some fr := by
  simp only [Readers.after, if_neg began] at pending
  split_ifs at pending with told
  exact ⟨fun delivered => told (.inl delivered), pending⟩

theorem Readers.Sound.step (h : s.Sound) (ok : Undisturbed s (.interrupt i))
    (handled : handleInterrupt s.kernel i = some (k', frame)) : (s.after i k').Sound := by
  have kept (p : Nat) (fr : InterruptRegisters)
      (pending : (s.after i k').pending p = some fr) :
      (p ≠ 0 ∧ p ≠ k'.curPid) ∧ Reads fr (k'.taskManager p) := by
    by_cases began : ReadsInput i ∧ p = s.kernel.curPid
    · obtain ⟨reads, rfl⟩ := began
      obtain rfl := Option.some.inj ((Readers.after_caller reads).symm.trans pending)
      have user := ok.1 reads
      have waits := read_waits reads handled user (h.current.resolve_left user)
      exact ⟨⟨user, waits.2.symm⟩, waits.1⟩
    · obtain ⟨undelivered, earlier⟩ := Readers.after_others began pending
      obtain ⟨user, away⟩ := h.away p fr earlier
      have reads := h.reads p fr earlier
      have reads' := handleInterrupt_reading handled away reads.1 (ok.2.1 p fr earlier) undelivered
        fr reads
      refine ⟨⟨user, ?_⟩, reads'⟩
      -- the scheduler goes on with a task that is ready, and a reader is not
      rintro rfl
      rcases handleInterrupt_goesOn handled with same | idle | ready
      · exact away same
      · exact user idle
      · exact absurd (reads'.2.1.symm.trans ready) (by decide)
  exact ⟨h.current.step handled, fun p fr pending => (kept p fr pending).1,
    fun p fr pending => (kept p fr pending).2⟩

/-- The readers after an interrupt that is handled. -/
def Readers.run (s : Readers) (i : Interrupt) : Readers := s.after i (answer s.kernel i).1

theorem Readers.run_step (h : (handleInterrupt s.kernel i).isSome = true) :
    ReadersStep s (.interrupt i) (s.run i) := .interrupt (handled_answer h)

def Readers.next (s : Readers) : Event → Option Readers
  | .interrupt i => (handleInterrupt s.kernel i).map fun r => s.after i r.1
  | .user ram => some { s with kernel := { s.kernel with mem := { s.kernel.mem with ram := ram } } }

end ChudOS
