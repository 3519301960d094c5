import ChudOS.TaskTermination
import ChudOS.WaitingTasks

/-!
# Parents

A task knows its parent by the number of a slot. Slots are used again, and nothing is updated when a
parent ends; `Descent` keeps, beside the kernel, which task a slot holds and which task made it.

* `ParentsHeld` — the owner's slot holds the task that executed the `FORK`.
* `Outlived` — the condition: no task ends before its children.
-/

namespace ChudOS

open Transition

variable {k k' : Kernel} {i : Interrupt} {frame : InterruptRegisters} {r : SyscallResult}
  {regs : InterruptRegisters} {p o : Nat}

/-- The task exists, and its owner is in slot `o`. -/
def OwnedBy (o : Nat) (t : Task) : Prop := t.exist = true ∧ t.ownerPID = o

theorem ownedBy_settled (o : Nat) : Settled (OwnedBy o) where
  gone gone owned := absurd (gone.symm.trans owned.1) (by decide)
  quiet exist owner _ _ _ _ owned := by rwa [OwnedBy, exist, owner] at owned
  state exist owner _ _ owned := by rwa [OwnedBy, exist, owner] at owned

/-! ## The three calls that write such things -/

theorem syscallWait_owned : NoNew (OwnedBy o) k (syscallWait k regs).kernel := by
  unfold syscallWait
  dsimp only
  split
  · exact .refl
  · have waiting : NoNew (OwnedBy o) k (k.setTask k.curPid { k.taskManager k.curPid with
        processState := .waiting
        waitingReason := .child
        childWaitingReason := regs.rdx.setWidth 32 }) := .setTask id
    exact waiting.trans (forceSwitch_noNew (ownedBy_settled o).steady)

/-- The new program belongs to whom the old one did. -/
theorem syscallExecve_owned {fuel : Nat} {dev : Devices}
    (exist : (k.taskManager k.curPid).exist = true)
    (h : syscallExecve fuel dev k regs = some r) : NoNew (OwnedBy o) k r.kernel := by
  unfold syscallExecve at h
  dsimp only at h
  split at h
  · cases h
    exact .refl
  simp only [Option.bind_eq_bind, Option.bind_eq_some_iff, Prod.exists] at h
  obtain ⟨k₁, pml4, h₁, n, -, k₂, h₂, m, -, h⟩ := h
  cases h
  have created := NoNew.keepsTasks (ownedBy_settled o) (kernelCreateUserMemory_keeps h₁)
  have creation := created.trans
    (.setState (ownedBy_settled o).steady k.curPid (by decide : ProcessState.creation ≠ .waiting))
  refine NoNew.trans (fun p owned => ?_) (forceSwitch_noNew (ownedBy_settled o).steady)
  by_cases hp : p = k.curPid
  · rw [hp, Kernel.setTask_self] at owned
    exact hp ▸ ⟨exist, owned.2⟩
  · rw [Kernel.setTask_of_ne _ _ _ hp] at owned
    refine creation p ?_
    obtain rfl | ⟨-, -, -, -, others⟩ := loadElfStrict_tasks h₂
    · exact owned
    · obtain ⟨d, same⟩ := others p (by simpa [(kernelCreateUserMemory_keeps h₁).curPid] using hp)
      change OwnedBy o (k₂.taskManager p) at owned
      rwa [same] at owned

/-- The slot `FORK` puts the child in. Without a free one it is slot 1. -/
def childSlot (k : Kernel) : Nat :=
  if findFreePID k = taskCount + 1 then 1 else findFreePID k

/-- Apart from the slot `s` no task has come, gone or changed hands. -/
def SameOwners (s : Nat) (k k' : Kernel) : Prop :=
  ∀ p ≠ s, (k'.taskManager p).exist = (k.taskManager p).exist ∧
    (k'.taskManager p).ownerPID = (k.taskManager p).ownerPID

namespace SameOwners

variable {k'' : Kernel} {s : Nat}

theorem trans (h : SameOwners s k k') (g : SameOwners s k' k'') : SameOwners s k k'' :=
  fun p hp => ⟨(g p hp).1.trans (h p hp).1, (g p hp).2.trans (h p hp).2⟩

theorem only (h : OnlyTask s k k') : SameOwners s k k' := fun p hp => by
  rw [h p hp]
  exact ⟨rfl, rfl⟩

theorem of_tasks (h : k'.taskManager = k.taskManager) : SameOwners s k k' := fun p _ => by
  rw [h]
  exact ⟨rfl, rfl⟩

theorem keepsTasks (h : KeepsTasks k k') : SameOwners s k k' := fun p _ =>
  ⟨h.exist p, h.field Task.ownerPID (fun _ _ => rfl) p⟩

theorem setRegisters (pid : Nat) (fr : InterruptRegisters) :
    SameOwners s k (k.setRegisters pid fr) := fun p _ =>
  ⟨Kernel.setRegisters_exist _ _ _ p,
    k.setTask_field pid { k.taskManager pid with savedRegisters := fr } Task.ownerPID rfl p⟩

end SameOwners

theorem registerTask_slot (base entry count : U64) (ticks : U8) (stack pml4 : U64) :
    (registerTask k base entry count ticks stack pml4).2 = childSlot k ∧
      OnlyTask (childSlot k) k (registerTask k base entry count ticks stack pml4).1 := by
  unfold registerTask childSlot
  dsimp only
  by_cases full : findFreePID k = taskCount + 1
  · simp only [if_pos full]
    exact ⟨trivial, .refl⟩
  · simp only [if_neg full]
    exact ⟨trivial, .setTask _⟩

theorem createChild_owners {slot : Nat} (h : createChild k regs = some (k', slot)) :
    slot = childSlot k ∧ (k'.taskManager slot).exist = true ∧ SameOwners slot k k' := by
  simp only [createChild, Option.bind_eq_bind, Option.bind_eq_some_iff, Prod.exists] at h
  obtain ⟨k₁, pml4, created, h⟩ := h
  cases h
  obtain ⟨found, registered⟩ := registerTask_slot (k := k)
    (k.taskManager k.curPid).memoryData.baseVirtualAddress regs.rip
    (k.taskManager k.curPid).memoryData.pageCount (k.taskManager k.curPid).maxTicks regs.rbp
    (k.taskManager k.curPid).basePML4
  rw [← found] at registered
  have keeps := kernelCreateUserMemory_keeps created
  refine ⟨found, ?_, ((SameOwners.only registered).trans (.only (.setTask _))).trans
    ((SameOwners.keepsTasks keeps).trans (.only (.setTask _)))⟩
  rw [Kernel.setTask_self]
  change (k₁.taskManager _).exist = true
  rw [keeps.exist, Kernel.setTask_self]
  rfl

/-- The child exists and belongs to the caller. -/
theorem syscallFork_owners (h : syscallFork k regs = some r) :
    OwnedBy k.curPid (r.kernel.taskManager (childSlot k)) ∧
      SameOwners (childSlot k) k r.kernel := by
  simp only [syscallFork, Option.bind_eq_bind, Option.bind_eq_some_iff, Prod.exists] at h
  obtain ⟨k₁, slot, created, k₂, shared, k₃, given, h⟩ := h
  cases h
  obtain ⟨found, exist₁, owners⟩ := createChild_owners created
  rw [← found]
  have stack := giveKernelStack_keeps given
  refine ⟨⟨?_, ?_⟩, ?_⟩
  · rw [continues, Kernel.setTask_self]
    change (k₃.taskManager _).exist = true
    rw [stack.exist, Kernel.enter_taskManager, shareRegions_tasks shared,
      Kernel.setRegisters_exist]
    exact exist₁
  · rw [continues, Kernel.setTask_self]
  · exact ((owners.trans (.setRegisters _ _)).trans (.of_tasks (shareRegions_tasks shared))).trans
      ((SameOwners.keepsTasks stack).trans (.only (.setTask _)))

/-! ## Every interrupt -/

/-- The system call `FORK`. -/
def Forks (i : Interrupt) : Prop := i.cause = .syscall ∧ i.frame.rax = 4

/-- The system call `EXECVE`. -/
def Execs (i : Interrupt) : Prop := i.cause = .syscall ∧ i.frame.rax = 5

instance (i : Interrupt) : Decidable (Forks i) := inferInstanceAs (Decidable (_ ∧ _))

theorem handleInterrupt_owned (h : handleInterrupt k i = some (k', frame)) (fork : ¬Forks i)
    (exec : Execs i → (k.taskManager k.curPid).exist = true) : NoNew (OwnedBy o) k k' := by
  obtain none | ⟨r, hi, tail, call⟩ := handleInterrupt_noNew (ownedBy_settled o) h
  · exact none
  · have entered := enteredSyscall_noNew (k := k) (i := i) (ownedBy_settled o).steady
    obtain ⟨hrax, -⟩ | ⟨hrax, execve⟩ | ⟨-, rfl⟩ := call
    · exact absurd ⟨hi, hrax⟩ fork
    · have exist : ((enteredSyscall k i).taskManager (enteredSyscall k i).curPid).exist = true := by
        rw [enteredSyscall_field Task.exist fun _ _ => rfl]
        exact exec ⟨hi, hrax⟩
      exact (entered.trans (syscallExecve_owned exist execve)).trans tail
    · exact (entered.trans syscallWait_owned).trans tail

theorem handleInterrupt_forked (h : handleInterrupt k i = some (k', frame)) (fork : Forks i) :
    OwnedBy k.curPid (k'.taskManager (childSlot k)) ∧ SameOwners (childSlot k) k k' := by
  obtain ⟨cause, hrax⟩ := fork
  simp only [handleInterrupt, cause, handleSyscall, Option.bind_eq_bind,
    Option.bind_eq_some_iff] at h
  obtain ⟨r, hr, h⟩ := h
  have four : i.frame.rax.toNat = 4 := by
    rw [hrax]
    rfl
  simp only [dispatchSyscall, four] at hr
  obtain ⟨child, others⟩ := syscallFork_owners (k := enteredSyscall k i) hr
  have slot : childSlot (enteredSyscall k i) = childSlot k := by
    rw [childSlot, enteredSyscall_freePID, childSlot]
  rw [slot] at child others
  have entered : SameOwners (childSlot k) k (enteredSyscall k i) := .setRegisters _ _
  split at h
  · cases h
    exact ⟨child, entered.trans others⟩
  · cases h
    have owner := (r.kernel.setTask_field k.curPid
      { r.kernel.taskManager k.curPid with savedRegisters := r.frame } Task.ownerPID rfl
      (childSlot k)).trans child.2
    refine ⟨⟨?_, owner⟩, (entered.trans others).trans (.setRegisters _ _)⟩
    rw [Kernel.setRegisters_exist]
    exact child.1

/-! ## Who made whom -/

/-- `identity p` is the number of the task in slot `p`, and `parent p` that of the task whose `FORK`
made it; tasks are numbered as they are made, and `next` is the first number that is left. -/
structure Descent where
  kernel : Kernel
  identity : Nat → Nat
  parent : Nat → Nat
  next : Nat

/-- After an interrupt: only `FORK` makes a task. -/
def Descent.after (d : Descent) (i : Interrupt) (k' : Kernel) : Descent :=
  if Forks i then
    { kernel := k'
      identity := Function.update d.identity (childSlot d.kernel) d.next
      parent := Function.update d.parent (childSlot d.kernel) (d.identity d.kernel.curPid)
      next := d.next + 1 }
  else { d with kernel := k' }

inductive DescentStep : Descent → Event → Descent → Prop
  | interrupt {d : Descent} {i : Interrupt} {k' : Kernel} {frame : InterruptRegisters} :
      handleInterrupt d.kernel i = some (k', frame) →
      DescentStep d (.interrupt i) (d.after i k')
  | user (d : Descent) (ram : Nat → Nat → U64) : DescentStep d (.user ram)
      { d with kernel := { d.kernel with mem := { d.kernel.mem with ram := ram } } }

/-- The slot of the owner of a task holds the very task that made it. -/
def ParentsHeld (d : Descent) : Prop :=
  ∀ p, (d.kernel.taskManager p).exist = true → (d.kernel.taskManager p).ownerPID ≠ 0 →
    (d.kernel.taskManager (d.kernel.taskManager p).ownerPID).exist = true ∧
      d.identity (d.kernel.taskManager p).ownerPID = d.parent p

/-- No existing task but `p` itself is owned by slot `p`. -/
def Childless (k : Kernel) (p : Nat) : Prop :=
  ∀ q ≠ p, (k.taskManager q).exist = true → (k.taskManager q).ownerPID ≠ p

/-- No task ends before its children, none is overwritten by a child for want of a free slot, and
only a task that exists calls `FORK` or `EXECVE`. -/
def Outlived (d : Descent) : Event → Prop
  | .interrupt i =>
    (Kills d.kernel i → d.kernel.curPid ≠ 0 → Childless d.kernel d.kernel.curPid) ∧
    (Forks i → findFreePID d.kernel = taskCount + 1 →
      d.kernel.curPid ≠ 1 ∧ Childless d.kernel 1) ∧
    (Forks i ∨ Execs i → (d.kernel.taskManager d.kernel.curPid).exist = true)
  | .user _ => True

variable {d : Descent}

/-- The child's slot is free, but with a full table. -/
theorem childSlot_apart (room : findFreePID k ≠ taskCount + 1)
    (exist : (k.taskManager p).exist = true) : p ≠ childSlot k := by
  rw [childSlot, if_neg room]
  intro eq
  rw [eq, findFreePID_free room] at exist
  cases exist

theorem ParentsHeld.forked (hd : ParentsHeld d) (fork : Forks i)
    (outlived : Outlived d (.interrupt i))
    (h : handleInterrupt d.kernel i = some (k', frame)) : ParentsHeld (d.after i k') := by
  obtain ⟨-, spares, caller⟩ := outlived
  have running := caller (.inl fork)
  obtain ⟨child, others⟩ := handleInterrupt_forked h fork
  obtain ⟨slot, hslot⟩ : ∃ slot, childSlot d.kernel = slot := ⟨_, rfl⟩
  rw [hslot] at child others
  -- Neither the caller nor a task that owns another one gives its slot to the child.
  have apart : d.kernel.curPid ≠ slot ∧ ∀ q ≠ slot, (d.kernel.taskManager q).exist = true →
      (d.kernel.taskManager q).ownerPID ≠ 0 → (d.kernel.taskManager q).ownerPID ≠ slot := by
    by_cases full : findFreePID d.kernel = taskCount + 1
    · rw [childSlot, if_pos full] at hslot
      obtain ⟨current, childless⟩ := spares fork full
      exact hslot ▸ ⟨current, fun q hq exist _ => childless q hq exist⟩
    · rw [← hslot]
      exact ⟨childSlot_apart full running,
        fun q _ exist nonzero => childSlot_apart full (hd q exist nonzero).1⟩
  rw [Descent.after, if_pos fork, hslot]
  intro p exist nonzero
  dsimp only at exist nonzero ⊢
  by_cases hp : p = slot
  · subst hp
    rw [child.2, Function.update_self, Function.update_of_ne apart.1]
    exact ⟨(others _ apart.1).1.trans running, rfl⟩
  · obtain ⟨existed, owner⟩ := others p hp
    rw [existed] at exist
    rw [owner] at nonzero ⊢
    obtain ⟨held, made⟩ := hd p exist nonzero
    have kept := apart.2 p hp exist nonzero
    rw [Function.update_of_ne kept, Function.update_of_ne hp]
    exact ⟨(others _ kept).1.trans held, made⟩

theorem ParentsHeld.other (hd : ParentsHeld d) (fork : ¬Forks i)
    (outlived : Outlived d (.interrupt i))
    (h : handleInterrupt d.kernel i = some (k', frame)) : ParentsHeld (d.after i k') := by
  obtain ⟨ends, -, caller⟩ := outlived
  rw [Descent.after, if_neg fork]
  intro p exist nonzero
  change (k'.taskManager p).exist = true at exist
  change (k'.taskManager p).ownerPID ≠ 0 at nonzero
  obtain ⟨before, owner⟩ := handleInterrupt_owned h fork (fun exec => caller (.inr exec)) p
    ⟨exist, rfl⟩
  rw [← owner] at nonzero
  obtain ⟨held, made⟩ := hd p before nonzero
  refine ⟨?_, ?_⟩
  · change (k'.taskManager (k'.taskManager p).ownerPID).exist = true
    rw [← owner]
    by_contra gone
    rw [Bool.not_eq_true] at gone
    obtain ⟨current, kills⟩ := (handleInterrupt_outcome h).ended held gone
    have other : p ≠ d.kernel.curPid := by
      intro same
      rw [current, ← same, exist] at gone
      cases gone
    exact ends kills (current ▸ nonzero) p other before current
  · change d.identity (k'.taskManager p).ownerPID = d.parent p
    rw [← owner]
    exact made

def Descent.run (d : Descent) (i : Interrupt) : Descent := d.after i (answer d.kernel i).1

theorem Descent.run_step (h : (handleInterrupt d.kernel i).isSome = true) :
    DescentStep d (.interrupt i) (d.run i) :=
  .interrupt (handled_answer h)

end ChudOS
