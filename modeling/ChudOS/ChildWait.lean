import ChudOS.TaskTermination
import ChudOS.WaitingTasks

/-!
# Waiting for a child

`WAIT` on an own child makes the caller wait until the child exits. The task table does not say
which child that is; `Family` keeps it, with whether that child has ceased to exist since.

## Main definitions

* `Informs` — what the end of the current task means for a waiting task.
* `Heard` — the interrupt leaves no parent waiting in vain and wakes no wrong one.
-/

namespace ChudOS

open Transition

variable {k k' k'' : Kernel} {i : Interrupt} {frame frame' : InterruptRegisters} {p : Nat}

/-! ## How a parent learns of the end of a child -/

/-- The end of the current task reaches its parent `p`: `SignalOwner` after a page fault, a
registered handler after `EXIT`. -/
def Reaches (k : Kernel) (i : Interrupt) (p : Nat) : Prop :=
  p = (k.taskManager k.curPid).ownerPID ∧ p ≠ 0 ∧ (i.cause = .pageFault ∨
    i.cause = .syscall ∧ ((k.taskManager p).signals sigchd.toNat).registered = true)

/-- The end of the current task makes its parent `p` ready. -/
def Wakes (k : Kernel) (i : Interrupt) (p : Nat) : Prop :=
  p = (k.taskManager k.curPid).ownerPID ∧ p ≠ 0 ∧ (i.cause = .pageFault ∨
    i.cause = .syscall ∧ Deliverable k p sigchd)

/-- What the end of the current task means for a waiting task `p`. -/
def Informs (k : Kernel) (i : Interrupt) (p : Nat) (t : Task) : Prop :=
  (Reaches k i p → ¬WaitsForExit t) ∧ (t.processState = .ready → Wakes k i p)

theorem Informs.unchanged (waits : WaitsForExit (k.taskManager p)) (h : ¬Reaches k i p) :
    Informs k i p (k.taskManager p) :=
  ⟨fun reaches => absurd reaches h, fun ready => absurd (waits.2.1.symm.trans ready) (by decide)⟩

theorem retireKilled_only {fuel pid : Nat} (h : retireKilled fuel k pid = some k')
    (hpid : k.curPid = pid) : k'.curPid = pid ∧ OnlyTask pid k k' := by
  unfold retireKilled at h
  dsimp only at h
  split at h
  · obtain ⟨cur, tasks, -⟩ := freeTaskMemory_tasks h
    refine ⟨cur, fun p hp => ?_⟩
    rw [tasks, Kernel.setTask_of_ne _ _ _ hp]
  · cases h
    exact ⟨hpid, .refl⟩

theorem timerInterrupt_only {fuel : Nat} (h : timerInterrupt fuel k frame = some (k', frame')) :
    OnlyTask k.curPid k k' := by
  unfold timerInterrupt at h
  dsimp only at h
  split at h
  · cases h
    exact .refl
  split at h
  · simp only [Option.bind_eq_bind, Option.bind_eq_some_iff, Option.some.injEq] at h
    obtain ⟨k₁, h₁, h⟩ := h
    obtain rfl : (taskSwitch k₁ _ frame).1 = k' := congrArg Prod.fst h
    obtain ⟨cur, retired⟩ := retireKilled_only h₁ rfl
    exact ((OnlyTask.setTask _).trans (.setTask _)).trans (retired.trans (taskSwitch_only cur))
  · cases h
    exact OnlyTask.trans (.setTask _) (.setTask _)

theorem fatalException_only {garbage : U64}
    (h : fatalException k frame garbage = some (k', frame')) : OnlyTask k.curPid k k' := by
  unfold fatalException at h
  dsimp only at h
  split at h
  · cases h
  obtain rfl : (forceSwitch _ _).1 = k' := congrArg Prod.fst (Option.some.inj h)
  exact OnlyTask.trans (.setTask _) (forceSwitch_only rfl)

theorem signalOwner_informs {origin : Task} {ret : U64} (waits : WaitsForExit (k.taskManager p)) :
    let t := (signalOwner k origin childWaitExit ret).taskManager p
    p = origin.ownerPID ∧ p ≠ 0 ∧ t.processState = .ready ∨
      ¬(p = origin.ownerPID ∧ p ≠ 0) ∧ t = k.taskManager p := by
  unfold signalOwner
  dsimp only
  by_cases hp : p = origin.ownerPID
  · split_ifs with none told
    · exact .inr ⟨fun owner => owner.2 (hp.trans none), rfl⟩
    · exact .inl ⟨hp, hp ▸ none, by rw [hp, Kernel.setTask_self]⟩
    · exact absurd (hp ▸ waits.2) told
  · refine .inr ⟨fun owner => hp owner.1, ?_⟩
    split_ifs
    · rfl
    · exact Kernel.setTask_of_ne _ _ _ hp
    · rfl

theorem signalParent_informs {owner : Nat} {ret : U64} (h : signalParent k owner ret = some k')
    (waits : WaitsForExit (k.taskManager p)) :
    let registered := ((k.taskManager p).signals sigchd.toNat).registered = true
    p = owner ∧ p ≠ 0 ∧ registered ∧ ((k'.taskManager p).processState = .ready ∧
        Deliverable k p sigchd ∨ (k'.taskManager p).processState = .creation) ∨
      ¬(p = owner ∧ p ≠ 0 ∧ registered) ∧ k'.taskManager p = k.taskManager p := by
  unfold signalParent at h
  dsimp only
  split at h
  next nonzero =>
    obtain ⟨only, sent⟩ := sendSignal_cases h
    by_cases hp : p = owner
    · subst hp
      obtain ⟨rfl, none⟩ | ⟨deliverable, ready⟩ | ⟨registered, creation⟩ := sent
      · exact .inr ⟨fun told => by simp [none waits.1] at told, rfl⟩
      · exact .inl ⟨rfl, nonzero, deliverable.1, .inl ⟨ready, deliverable⟩⟩
      · exact .inl ⟨rfl, nonzero, registered, .inr creation⟩
    · exact .inr ⟨fun told => hp told.1, only p hp⟩
  next zero =>
    cases h
    exact .inr ⟨fun told => zero (told.1 ▸ told.2.1), rfl⟩

theorem handlePageFault_informs (hi : i.cause = .pageFault) (kills : Kills k i)
    (h : handlePageFault i.fuel k i.frame = some (k', frame)) (hp : p ≠ k.curPid)
    (waits : WaitsForExit (k.taskManager p)) : Informs k i p (k'.taskManager p) := by
  have kills : faultKills (k.taskManager k.curPid).memoryData i.frame.cr2 = true := by
    simpa [Kills, hi] using kills
  unfold handlePageFault at h
  dsimp only at h
  rw [Kernel.setRegisters_memoryData, if_pos kills] at h
  simp only [Option.bind_eq_bind, Option.bind_eq_some_iff, Option.some.injEq] at h
  obtain ⟨k₁, h₁, h⟩ := h
  obtain rfl : (forceSwitch k₁ i.frame).1 = k' := congrArg Prod.fst h
  obtain ⟨cur, tasks, -⟩ := freeTaskMemory_tasks h₁
  have others : OnlyTask k.curPid k (killTask (k.setRegisters k.curPid i.frame) k.curPid) :=
    OnlyTask.trans (.setTask _) (.setTask _)
  have owned : ((killTask (k.setRegisters k.curPid i.frame) k.curPid).taskManager
      k.curPid).ownerPID = (k.taskManager k.curPid).ownerPID := by
    simp [killTask, Kernel.setState, Kernel.setRegisters]
  rw [forceSwitch_only cur p hp, tasks]
  obtain ⟨owner, nonzero, ready⟩ | ⟨other, same⟩ := signalOwner_informs
    (k := killTask (k.setRegisters k.curPid i.frame) k.curPid) ((others p hp).symm ▸ waits)
  · refine ⟨fun _ waits => ?_, fun _ => ⟨owner.trans owned, nonzero, .inl hi⟩⟩
    exact absurd (waits.2.1.symm.trans ready) (by decide)
  · rw [same, others p hp]
    exact .unchanged waits fun reaches => other ⟨reaches.1.trans owned.symm, reaches.2.1⟩

theorem signalParent_curPid {owner : Nat} {ret : U64}
    (agree : k.mem.paging.cr3 = k.mem.paging.pml4Physical)
    (h : signalParent k owner ret = some k') : k'.curPid = k.curPid := by
  unfold signalParent at h
  split at h
  · exact (sendSignal_keeps agree h).curPid
  · cases h
    rfl

theorem syscallExit_informs (hi : i.cause = .syscall) {r : SyscallResult}
    (agree : k.mem.paging.cr3 = k.mem.paging.pml4Physical)
    (h : syscallExit k i.frame = some r) (hp : p ≠ k.curPid)
    (waits : WaitsForExit (k.taskManager p)) : Informs k i p (r.kernel.taskManager p) := by
  simp only [syscallExit, Option.bind_eq_bind, Option.bind_eq_some_iff] at h
  obtain ⟨k₁, h₁, h⟩ := h
  cases h
  have cur : k₁.curPid = k.curPid := signalParent_curPid agree h₁
  have ended : OnlyTask k.curPid k₁ (forceSwitch (killTask k₁ k.curPid) i.frame).1 :=
    OnlyTask.trans (.setTask _) (forceSwitch_only (k := killTask k₁ _) cur)
  dsimp only [yields]
  rw [ended p hp]
  obtain ⟨owner, nonzero, registered, told⟩ | ⟨other, same⟩ := signalParent_informs h₁ waits
  · obtain ⟨ready, deliverable⟩ | creation := told
    · exact ⟨fun _ waits => absurd (waits.2.1.symm.trans ready) (by decide),
        fun _ => ⟨owner, nonzero, .inr ⟨hi, deliverable⟩⟩⟩
    · exact ⟨fun _ waits => absurd (waits.2.1.symm.trans creation) (by decide),
        fun ready => absurd (ready.symm.trans creation) (by decide)⟩
  · rw [same]
    refine .unchanged waits ?_
    rintro ⟨owner, nonzero, cause⟩
    refine other ⟨owner, nonzero, ?_⟩
    exact cause.elim (fun fault => by simp [hi] at fault) And.right

theorem enteredSyscall_only : OnlyTask k.curPid k (enteredSyscall k i) := .setTask _

theorem Informs.of_entered {t : Task} (hp : p ≠ k.curPid)
    (h : Informs (enteredSyscall k i) i p t) : Informs k i p t := by
  have cur : (enteredSyscall k i).curPid = k.curPid := rfl
  have owner := enteredSyscall_field (k := k) (i := i) Task.ownerPID (fun _ _ => rfl) k.curPid
  simp only [Informs, Reaches, Wakes, Deliverable, memAccessOk, cur, owner,
    enteredSyscall_only p hp] at h
  exact h

theorem handleSyscall_informs (hi : i.cause = .syscall) (kills : Kills k i)
    (h : handleSyscall i.fuel i.dev k i.frame = some (k', frame)) (hp : p ≠ k.curPid)
    (waits : WaitsForExit (k.taskManager p)) : Informs k i p (k'.taskManager p) := by
  have hrax : i.frame.rax = 0 := by simpa [Kills, hi] using kills
  simp only [handleSyscall, Option.bind_eq_bind, Option.bind_eq_some_iff] at h
  obtain ⟨r, hr, h⟩ := h
  have exit : syscallExit (enteredSyscall k i) i.frame = some r := by
    have dispatched : dispatchSyscall i.fuel i.dev (enteredSyscall k i) i.frame = some r := hr
    simpa [dispatchSyscall, hrax] using dispatched
  have same : (enteredSyscall k i).taskManager p = k.taskManager p := enteredSyscall_only p hp
  have informs := syscallExit_informs hi rfl exit hp (same.symm ▸ waits)
  have kept : k'.taskManager p = r.kernel.taskManager p := by
    split at h <;> cases h
    · rfl
    · exact Kernel.setTask_of_ne _ _ _ hp
  rw [kept]
  exact informs.of_entered hp

/-- What the interrupt that ends the current task does to a task that waits for a child. -/
theorem ending_informs (kills : Kills k i) (h : handleInterrupt k i = some (k', frame))
    (hp : p ≠ k.curPid) (waits : WaitsForExit (k.taskManager p)) :
    Informs k i p (k'.taskManager p) := by
  unfold handleInterrupt at h
  split at h
  next hi =>
    rw [timerInterrupt_only h p hp]
    exact .unchanged waits fun reaches => by simp [Reaches, hi] at reaches
  next hi => exact handleSyscall_informs hi kills h hp waits
  next hi => exact handlePageFault_informs hi kills h hp waits
  next hi =>
    rw [fatalException_only h p hp]
    exact .unchanged waits fun reaches => by simp [Reaches, hi] at reaches
  next hi =>
    rw [fatalException_only h p hp]
    exact .unchanged waits fun reaches => by simp [Reaches, hi] at reaches
  next hi => simp [Kills, hi] at kills

/-! ## Families -/

/-- `awaited p` is the child that `p` named in its last `WAIT`, and `gone p` says that there has
been no such task at some time since. -/
structure Family where
  kernel : Kernel
  awaited : Nat → Option Nat
  gone : Nat → Bool

instance (k : Kernel) (i : Interrupt) : Decidable (WaitsForChild k i) :=
  inferInstanceAs (Decidable (_ ∧ _))

/-- The family after the interrupt `i`, which left the kernel `k'`. -/
def Family.after (s : Family) (i : Interrupt) (k' : Kernel) : Family where
  kernel := k'
  awaited p :=
    if WaitsForChild s.kernel i ∧ p = s.kernel.curPid then some i.frame.rbx.toNat else s.awaited p
  gone p :=
    if WaitsForChild s.kernel i ∧ p = s.kernel.curPid then
      !(k'.taskManager i.frame.rbx.toNat).exist
    else s.gone p || (s.awaited p).any fun child => !(k'.taskManager child).exist

@[simp] theorem Family.after_kernel (s : Family) (i : Interrupt) (k' : Kernel) :
    (s.after i k').kernel = k' := rfl

inductive FamilyStep : Family → Event → Family → Prop
  | interrupt {s : Family} {i : Interrupt} {k' : Kernel} {frame : InterruptRegisters} :
      handleInterrupt s.kernel i = some (k', frame) → FamilyStep s (.interrupt i) (s.after i k')
  | user (s : Family) (ram : Nat → Nat → U64) : FamilyStep s (.user ram)
      { s with kernel := { s.kernel with mem := { s.kernel.mem with ram := ram } } }

/-- The kernel from its first `task_switch` on, when no task has called `WAIT` yet. -/
def familySystem : LTS Family Event where
  init s := FirstSwitch s.kernel ∧ ∀ p, s.awaited p = none
  step := FamilyStep

variable {s : Family}

/-- No parent waits for the exit of a child that is gone. -/
def Family.NoneStranded (s : Family) : Prop :=
  ∀ p child, WaitsForExit (s.kernel.taskManager p) → s.awaited p = some child → s.gone p = false

/-- In the step from `k` to `k'` the end of task `ended` wakes the waiting parent `p`. -/
structure WokenByEnd (k k' : Kernel) (p ended : Nat) : Prop where
  waits : WaitsForExit (k.taskManager p)
  ready : (k'.taskManager p).exist = true ∧ (k'.taskManager p).processState = .ready
  existed : (k.taskManager ended).exist = true
  gone : (k'.taskManager ended).exist = false

/-- The interrupt leaves no parent waiting in vain and wakes no wrong one: `WAIT` for an exit names
a task that exists, and the end of a task reaches the parent that waits for it, and makes no parent
ready that waits for another child. -/
structure HeardBy (s : Family) (i : Interrupt) : Prop where
  named : WaitsForChild s.kernel i → i.frame.rdx.setWidth 32 = childWaitExit →
    (s.kernel.taskManager i.frame.rbx.toNat).exist = true
  reached : Kills s.kernel i → ∀ p, p ≠ s.kernel.curPid → WaitsForExit (s.kernel.taskManager p) →
    s.awaited p = some s.kernel.curPid → Reaches s.kernel i p
  meant : Kills s.kernel i → ∀ p child, WaitsForExit (s.kernel.taskManager p) →
    s.awaited p = some child → Wakes s.kernel i p → child = s.kernel.curPid

def Heard (s : Family) : Event → Prop
  | .interrupt i => HeardBy s i
  | .user _ => True

/-- The invariant: besides, an awaited child that is not gone exists. -/
structure Family.Sound (s : Family) : Prop where
  alive : ∀ p child, s.awaited p = some child → s.gone p = false →
    (s.kernel.taskManager child).exist = true
  noneStranded : s.NoneStranded

theorem Family.after_caller (waits : WaitsForChild s.kernel i) :
    (s.after i k').awaited s.kernel.curPid = some i.frame.rbx.toNat ∧
      (s.after i k').gone s.kernel.curPid = !(k'.taskManager i.frame.rbx.toNat).exist := by
  simp [Family.after, waits]

theorem Family.after_others (h : ¬(WaitsForChild s.kernel i ∧ p = s.kernel.curPid)) :
    (s.after i k').awaited p = s.awaited p ∧ (s.after i k').gone p =
      (s.gone p || (s.awaited p).any fun child => !(k'.taskManager child).exist) := by
  simp only [Family.after, if_neg h, and_self]

theorem syscallWait_reason {regs : InterruptRegisters}
    (child : (k.taskManager regs.rbx.toNat).ownerPID = k.curPid) :
    ((syscallWait k regs).kernel.taskManager k.curPid).childWaitingReason =
      regs.rdx.setWidth 32 := by
  simp [syscallWait, child, continues, forceSwitch, taskSwitch, descheduled, Kernel.setRegisters]

/-- The caller of `WAIT` waits for the reason it gave. -/
theorem wait_reason (waits : WaitsForChild k i) (h : handleInterrupt k i = some (k', frame))
    (exit : WaitsForExit (k'.taskManager k.curPid)) :
    i.frame.rdx.setWidth 32 = childWaitExit := by
  obtain ⟨hi, hrax, child⟩ := waits
  have child : ((enteredSyscall k i).taskManager i.frame.rbx.toNat).ownerPID = k.curPid :=
    (enteredSyscall_field Task.ownerPID (fun _ _ => rfl) _).trans child
  simp only [handleInterrupt, hi, handleSyscall, Option.bind_eq_bind, Option.bind_eq_some_iff] at h
  obtain ⟨r, hr, h⟩ := h
  obtain rfl : syscallWait (enteredSyscall k i) i.frame = r := by
    have dispatched : dispatchSyscall i.fuel i.dev (enteredSyscall k i) i.frame = some r := hr
    simpa [dispatchSyscall, hrax] using dispatched
  have reason := syscallWait_reason (k := enteredSyscall k i) child
  have kept : (k'.taskManager k.curPid).childWaitingReason = i.frame.rdx.setWidth 32 := by
    rw [← reason]
    split at h <;> cases h
    · rfl
    · exact Kernel.setTask_field _ _ _ Task.childWaitingReason (by rfl) _
  exact kept.symm.trans exit.2.2.2

theorem Family.Sound.step (h : s.Sound) (ok : HeardBy s i)
    (handled : handleInterrupt s.kernel i = some (k', frame)) : (s.after i k').Sound := by
  have outcome := handleInterrupt_outcome handled
  have alive (p child : Nat) (awaited : (s.after i k').awaited p = some child)
      (notGone : (s.after i k').gone p = false) : (k'.taskManager child).exist = true := by
    by_cases begins : WaitsForChild s.kernel i ∧ p = s.kernel.curPid
    · obtain ⟨waits, rfl⟩ := begins
      obtain ⟨named, gone⟩ := Family.after_caller waits
      obtain rfl := Option.some.inj (named.symm.trans awaited)
      simpa [gone] using notGone
    · obtain ⟨same, gone⟩ := Family.after_others begins
      simpa [same.symm.trans awaited] using (Bool.or_eq_false_iff.mp (gone.symm.trans notGone)).2
  refine ⟨alive, fun p child exit awaited => ?_⟩
  by_cases begins : WaitsForChild s.kernel i ∧ p = s.kernel.curPid
  · obtain ⟨waits, rfl⟩ := begins
    rw [(Family.after_caller waits).2, Bool.not_eq_false']
    by_contra gone
    have existed := ok.named waits (wait_reason waits handled exit)
    have kills := (outcome.ended existed (by simpa using gone)).2
    simp [Kills, waits.1, waits.2.1] at kills
  · obtain ⟨same, gone⟩ := Family.after_others begins
    have awaited := same.symm.trans awaited
    have waiting := handleInterrupt_waits handled (fun waits hp => begins ⟨waits, hp⟩) exit
    have notGone := h.noneStranded p child waiting awaited
    rw [gone, notGone, awaited, Bool.false_or, Option.any_some, Bool.not_eq_false']
    by_contra ended
    obtain ⟨rfl, kills⟩ := outcome.ended (h.alive p child awaited notGone) (by simpa using ended)
    have hp : p ≠ s.kernel.curPid := by
      rintro rfl
      exact ended exit.1
    have informs := ending_informs kills handled hp waiting
    exact informs.1 (ok.reached kills p hp waiting awaited) exit

theorem reachable_sound (h : Reachable familySystem Heard s) : s.Sound := by
  refine h.invariant (fun s (hs : FirstSwitch s.kernel ∧ ∀ p, s.awaited p = none) => ?_)
    fun s e s' hs ok (hstep : FamilyStep s e s') => ?_
  · exact ⟨fun p child awaited => by simp [hs.2] at awaited,
      fun p child _ awaited => by simp [hs.2] at awaited⟩
  · cases hstep with
    | interrupt handled => exact hs.step ok handled
    | user => exact ⟨hs.alive, hs.noneStranded⟩

/-- In a run whose steps are all heard, no parent ever waits for the exit of a child that is gone,
and the end of a task wakes no parent but the one that waits for it. -/
theorem waiting_parent_woken (reachable : Reachable familySystem Heard s) :
    s.NoneStranded ∧ ∀ (i : Interrupt) (k' : Kernel) (frame : InterruptRegisters)
      (p child ended : Nat), HeardBy s i → handleInterrupt s.kernel i = some (k', frame) →
        s.awaited p = some child → WokenByEnd s.kernel k' p ended → child = ended := by
  refine ⟨(reachable_sound reachable).noneStranded,
    fun i k' frame p child ended ok handled awaited woken => ?_⟩
  obtain ⟨rfl, kills⟩ := (handleInterrupt_outcome handled).ended woken.existed woken.gone
  have hp : p ≠ s.kernel.curPid := by
    rintro rfl
    exact absurd woken.ready.1 (by simp [woken.gone])
  have wakes := (ending_informs kills handled hp woken.waits).2 woken.ready.2
  exact ok.meant kills p child woken.waits awaited wakes

/-! ## A shell and its child -/

/-- The family after an interrupt that is handled. -/
def Family.run (s : Family) (i : Interrupt) : Family := s.after i (answer s.kernel i).1

theorem Family.run_step (h : (handleInterrupt s.kernel i).isSome = true) :
    FamilyStep s (.interrupt i) (s.run i) := .interrupt (handled_answer h)

/-- The shell, before any `WAIT`. -/
def shellFamily : Family := ⟨shellKernel, fun _ => none, fun _ => false⟩

/-- The shell registers a handler for the end of its children. -/
def registerCall : Interrupt :=
  { shellInterrupt .syscall 0x400008 0x0E 0 with
    frame := { zeroRegisters with rip := 0x400008, rax := 0x0E, rcx := 0x400100 } }

/-- `fork`, from the middle of the stack page. -/
def stackedFork : Interrupt :=
  { forkCall with frame := { forkCall.frame with rsp := stackBase + 2048 } }

/-- The shell has a handler and a child. -/
def forkedFamily : Family := (shellFamily.run registerCall).run stackedFork

/-- The shell waits for the exit of its child, which runs. -/
def waitingFamily : Family := forkedFamily.run waitCall

/-- The child exits. -/
def childExit : Interrupt := shellInterrupt .syscall 0x400040 0 0

theorem HeardBy.of_alive (h : ¬Kills s.kernel i)
    (named : WaitsForChild s.kernel i →
      (s.kernel.taskManager i.frame.rbx.toNat).exist = true) : HeardBy s i :=
  ⟨fun waits _ => named waits, fun kills => absurd kills h, fun kills => absurd kills h⟩

theorem waitingFamily_reachable {ok : Family → Event → Prop}
    (register : ok shellFamily (.interrupt registerCall))
    (fork : ok (shellFamily.run registerCall) (.interrupt stackedFork))
    (wait : ok forkedFamily (.interrupt waitCall)) :
    Reachable familySystem ok waitingFamily := by
  have start : Reachable familySystem ok shellFamily :=
    .init ⟨⟨idleKernel, zeroRegisters, rfl, rfl, rfl⟩, fun _ => rfl⟩
  have registered := start.step register (Family.run_step (by decide +kernel))
  have forked := registered.step fork (Family.run_step (by decide +kernel))
  exact forked.step wait (Family.run_step (by decide +kernel))

theorem not_waitsForChild (h : i.frame.rax ≠ 6) : ¬WaitsForChild k i := fun waits => h waits.2.1

theorem waitingFamily_awaited {child : Nat} (h : waitingFamily.awaited p = some child) :
    p = 1 ∧ child = 2 := by
  have caller : forkedFamily.kernel.curPid = 1 := by decide +kernel
  by_cases begins : WaitsForChild forkedFamily.kernel waitCall ∧ p = forkedFamily.kernel.curPid
  · rw [begins.2, waitingFamily, Family.run, (Family.after_caller begins.1).1] at h
    exact ⟨begins.2.trans caller, (Option.some.inj h).symm⟩
  · rw [waitingFamily, Family.run, (Family.after_others begins).1, forkedFamily, Family.run,
      (Family.after_others fun waits => not_waitsForChild (by decide) waits.1).1, Family.run,
      (Family.after_others fun waits => not_waitsForChild (by decide) waits.1).1] at h
    cases h

theorem waitingFamily_heard : Reachable familySystem Heard waitingFamily := by
  have spares {s : Family} {i : Interrupt} (hi : i.cause = .syscall) (h : i.frame.rax ≠ 0) :
      ¬Kills s.kernel i := by simpa [Kills, hi] using h
  refine waitingFamily_reachable (HeardBy.of_alive (spares rfl (by decide)) fun waits => ?_)
    (HeardBy.of_alive (spares rfl (by decide)) fun waits => ?_)
    (HeardBy.of_alive (spares rfl (by decide)) fun _ => ?_)
  · exact absurd waits (not_waitsForChild (by decide))
  · exact absurd waits (not_waitsForChild (by decide))
  · decide +kernel

theorem childExit_heard : HeardBy waitingFamily childExit where
  named waits := absurd waits (not_waitsForChild (by decide))
  reached _ p _ _ awaited := by
    obtain ⟨rfl, -⟩ := waitingFamily_awaited awaited
    exact ⟨by decide +kernel, by decide, .inr ⟨rfl, by decide +kernel⟩⟩
  meant _ p child _ awaited _ := by
    obtain ⟨-, rfl⟩ := waitingFamily_awaited awaited
    decide +kernel

/-- The handler wakes the shell. -/
theorem childExit_wakes : (handleInterrupt waitingFamily.kernel childExit).isSome = true ∧
    WokenByEnd waitingFamily.kernel (answer waitingFamily.kernel childExit).1 1 2 := by
  have woken : (handleInterrupt waitingFamily.kernel childExit).any (fun r =>
      (r.1.taskManager 1).exist && (r.1.taskManager 1).processState == .ready &&
        !(r.1.taskManager 2).exist) = true := by decide +kernel
  have before : WaitsForExit (waitingFamily.kernel.taskManager 1) ∧
      (waitingFamily.kernel.taskManager 2).exist = true := by decide +kernel
  obtain ⟨r, handled, after⟩ := (Option.any_eq_true _ _).mp woken
  simp only [Bool.and_eq_true, beq_iff_eq, Bool.not_eq_true'] at after
  rw [answer, handled]
  exact ⟨rfl, before.1, after.1, before.2, after.2⟩

theorem waiting_parent_woken_exit : waitingFamily.NoneStranded ∧ 2 = waitingFamily.kernel.curPid :=
  (waiting_parent_woken waitingFamily_heard).imp_right fun meant =>
    (meant childExit _ _ 1 2 2 childExit_heard (handled_answer childExit_wakes.1)
      (by decide +kernel) childExit_wakes.2).trans (by decide +kernel)

/-- A general protection fault in the child. -/
def childFault : Interrupt := shellInterrupt (.generalProtection 0) 0x400040 0 0

/-- The shell goes on waiting for a child that is gone. -/
theorem fault_strands_shell :
    ¬∀ s : Family, Reachable familySystem (fun _ _ => True) s →
      s.NoneStranded ∧ ∀ (i : Interrupt) (k' : Kernel) (frame : InterruptRegisters)
        (p child ended : Nat), handleInterrupt s.kernel i = some (k', frame) →
          s.awaited p = some child → WokenByEnd s.kernel k' p ended → child = ended := by
  intro claimed
  have reachable := @waitingFamily_reachable (fun _ _ => True) trivial trivial trivial
  have faulted : FamilyStep waitingFamily (.interrupt childFault) (waitingFamily.run childFault) :=
    Family.run_step (by decide +kernel)
  have stranded := (claimed _ (reachable.step trivial faulted)).1
  exact absurd (stranded 1 2 (by decide +kernel) (by decide +kernel)) (by decide +kernel)

end ChudOS
