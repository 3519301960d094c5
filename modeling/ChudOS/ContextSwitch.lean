import ChudOS.InterruptOutcomes
import ChudOS.LowLevel.PageTables

/-!
# Context switches

What every handler guarantees about the task it leaves and the task it continues: the address
space and the TSS follow the current task, a task that loses the CPU keeps its own frame, and the
stub continues the task that is current. The last two hold except for the interrupts named.
-/

namespace ChudOS

open Transition

variable {k k' : Kernel} {i : Interrupt} {frame : InterruptRegisters}

/-! ## A shell

One program in slot 1, a page of code and a page of stack, when the idle task is interrupted for
the first time. -/

/-- The page tables of the shell, from the root in frame 1. -/
def shellRam : Nat → Nat → U64
  | 1, 0 => 0x2007
  | 2, 0 => 0x3007
  | 3, 2 => 0x4007
  | 4, 0 => 0x5007
  | 2, 1 => 0x6007
  | 6, 511 => 0x7007
  | 7, 0x1F0 => 0x8007
  | _, _ => 0

def shellMemory : Memory where
  ram := shellRam
  physFrames f := if f = 5 ∨ f = 8 then ⟨1, 1⟩ else if f < 8 then ⟨0, 0b101⟩ else ⟨0, 0⟩
  totalMem := 0x40000
  availableMem := 0x40000
  physicalPagesUsed := 0
  virtualMemorySize := 64
  paging := ⟨0x1000, 0x1000, 0x1000⟩

/-- The links of the shell's page tables. -/
theorem shellRam_link {t i u : Nat} (h : link (shellRam t i) = some u) :
    (t, i, u) ∈ [(1, 0, 2), (2, 0, 3), (3, 2, 4), (4, 0, 5), (2, 1, 6), (6, 511, 7),
      (7, 0x1F0, 8)] := by
  unfold shellRam at h
  split at h
  all_goals
    simp only [link, pteFrame, pteAddr, frameOf] at h
    simp at h
    try subst h
    try decide

/-- How far below the root a frame of the shell is. -/
def shellLevel : Nat → Nat
  | 1 => 0
  | 2 => 1
  | 3 | 6 => 2
  | 4 | 7 => 3
  | _ => 4

theorem shellLevel_tableAt {p : List (Fin 512)} {t : Nat} (h : shellMemory.tableAt 1 p = some t) :
    shellLevel t = p.length := by
  induction p using List.reverseRecOn generalizing t with
  | nil => cases h; rfl
  | append_singleton p i ih =>
    obtain ⟨u, above, linked⟩ := RadixTree.tableAt_concat_eq_some.mp h
    have := shellRam_link linked
    have up := ih above
    rw [List.length_append, List.length_singleton, ← up]
    simp only [List.mem_cons, List.not_mem_nil, Prod.mk.injEq, or_false] at this
    obtain ⟨rfl, -, rfl⟩ | ⟨rfl, -, rfl⟩ | ⟨rfl, -, rfl⟩ | ⟨rfl, -, rfl⟩ | ⟨rfl, -, rfl⟩ |
      ⟨rfl, -, rfl⟩ | ⟨rfl, -, rfl⟩ := this
    all_goals rfl

def idleTask : Task :=
  { zeroTask with
    memoryData := { zeroTask.memoryData with
      baseVirtualAddress := virtualMemoryBarrier
      pageCount := 16384 }
    processState := .ready
    basePML4 := 0x1000
    exist := true }

def shellTask : Task :=
  let t := registeredTask 0x400000 0x400000 1 userPriority (stackBase + 4080) 0x1000
  { t with
    memoryData := { t.memoryData with stackBaseVirtualAddress := stackBase, stackPageCount := 1 }
    processState := .ready }

def idleKernel : Kernel where
  mem := shellMemory
  taskManager p := if p = 0 then idleTask else if p = 1 then shellTask else zeroTask
  curPid := 0
  activeTSS := zeroTSS
  capslock := false
  upper := false
  keyBuffer _ := 0
  keyBufferPos := 0

def noDevices : Devices where
  readEntry _ := ⟨0, 0, 0⟩
  directoryToIndex _ := 0
  readFile _ _ := 0
  blockToLBA _ := 0
  readLBA _ _ := 0
  noDescriptor := 0

/-- An interrupt of the program at `rip`. -/
def shellInterrupt (cause : Cause) (rip rax rbx : U64) : Interrupt :=
  ⟨cause, { zeroRegisters with cs := 0x1B, rip := rip, rax := rax, rbx := rbx }, noDevices, 0⟩

/-- The shell has been started. -/
def shellKernel : Kernel :=
  (taskSwitch idleKernel (findNextTask idleKernel 0) zeroRegisters).1

/-- What a handler answers, when it returns. -/
def answer (k : Kernel) (i : Interrupt) : Kernel × InterruptRegisters :=
  (handleInterrupt k i).getD (k, i.frame)

def forkCall : Interrupt := shellInterrupt .syscall 0x400010 4 0

/-- `WAIT` for the task in slot 2. -/
def waitCall : Interrupt := shellInterrupt .syscall 0x400020 6 2

section Shell

variable {ok : Kernel → Event → Prop}

theorem handled_answer {k : Kernel} {i : Interrupt} (h : (handleInterrupt k i).isSome = true) :
    handleInterrupt k i = some ((answer k i).1, (answer k i).2) := by
  obtain ⟨r, hr⟩ := Option.isSome_iff_exists.mp h
  simp [answer, hr]

end Shell

/-! ## Address space and TSS -/

/-- One step: the address space of the current task is selected, and its TSS when it is new. -/
theorem Outcome.space (h : Outcome k i k' frame) (hk : AddressSpaceCurrent k) :
    AddressSpaceCurrent k' ∧
      (k'.curPid ≠ k.curPid → k'.activeTSS = (k'.taskManager k'.curPid).userTSS) := by
  cases h with
  | stays hs => exact ⟨hs.space hk, fun hne => absurd hs.curPid hne⟩
  | switches _ switched _ => exact ⟨switched.space, fun _ => switched.tss⟩
  | @waits k₁ _ _ switched _ =>
    refine ⟨(Stays.setRegisters _ _).space switched.space, fun _ => ?_⟩
    have kept := k₁.setTask_field k.curPid
      { k₁.taskManager k.curPid with savedRegisters := frame } Task.userTSS rfl k₁.curPid
    exact switched.tss.trans kept.symm
  | fatal _ switched _ _ => exact ⟨switched.space, fun _ => switched.tss⟩

theorem FirstSwitch.switched (h : FirstSwitch k) :
    (k.taskManager 0).exist = true ∧ ∃ r popped, Switched 0 r k popped := by
  obtain ⟨k₀, r, hcur, idle, rfl⟩ := h
  have switched : Switched k₀.curPid r _ _ :=
    taskSwitch_switched ((findNextTask_spec k₀ 0).imp_right And.right)
  exact ⟨(taskSwitch_exist _ _ _ 0).trans idle, r, _, hcur ▸ switched⟩

theorem FirstSwitch.space (h : FirstSwitch k) : AddressSpaceCurrent k := by
  obtain ⟨-, r, popped, switched⟩ := h.switched
  exact switched.space

theorem OwnFrame.rip (h : OwnFrame k i frame) (hrax : i.frame.rax ≠ 5) :
    frame.rip = i.frame.rip := by
  cases h with
  | entered => rfl
  | result => rfl
  | loaded _ h => exact absurd h hrax

/-- The interrupts after which the wrong frame may be popped: the fatal exceptions, and whatever
kills the idle task. -/
def LosesFrame (k : Kernel) (i : Interrupt) : Prop := Fatal i ∨ k.curPid = 0 ∧ Kills k i

/-- The idle task and the current task exist. -/
def Runnable (k : Kernel) : Prop :=
  (k.taskManager 0).exist = true ∧ (k.taskManager k.curPid).exist = true

theorem Switched.runnable {cur : Nat} {r : InterruptRegisters} (h : Switched cur r k' frame)
    (idle : (k'.taskManager 0).exist = true) : Runnable k' :=
  ⟨idle, h.next.elim (fun h0 => h0 ▸ idle) id⟩

theorem Survive.idle (h : Survive k i k') (hk : Runnable k) (ok : ¬LosesFrame k i) :
    (k'.taskManager 0).exist = true :=
  (h 0 hk.1).elim id fun hdead => absurd (.inr ⟨hdead.1.symm, hdead.2⟩) ok

theorem FirstSwitch.runnable (h : FirstSwitch k) : Runnable k := by
  obtain ⟨idle, r, popped, switched⟩ := h.switched
  exact switched.runnable idle

end ChudOS
