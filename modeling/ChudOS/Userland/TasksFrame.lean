import ChudOS.LowLevel.MemoryFrame
import ChudOS.Userland.Tasks

/-!
# What the task functions leave alone

Allocation on behalf of a task changes memory and the regions of tasks, nothing else of the kernel.
Loading a program changes one task slot.
-/

namespace ChudOS

open Memory

namespace Kernel

variable (k : Kernel) (pid : Nat) (t : Task) (r : InterruptRegisters) (s : ProcessState)
  (d : TaskMemoryDefinition) (address : U64)

@[simp] theorem setTask_curPid : (k.setTask pid t).curPid = k.curPid := rfl
@[simp] theorem setTask_mem : (k.setTask pid t).mem = k.mem := rfl
@[simp] theorem setTask_activeTSS : (k.setTask pid t).activeTSS = k.activeTSS := rfl
@[simp] theorem setRegisters_mem : (k.setRegisters pid r).mem = k.mem := rfl
@[simp] theorem setState_curPid : (k.setState pid s).curPid = k.curPid := rfl
@[simp] theorem setState_mem : (k.setState pid s).mem = k.mem := rfl
@[simp] theorem setMemoryData_curPid : (k.setMemoryData pid d).curPid = k.curPid := rfl
@[simp] theorem setMemoryData_mem : (k.setMemoryData pid d).mem = k.mem := rfl
@[simp] theorem setCr3_curPid : (k.setCr3 address).curPid = k.curPid := rfl
@[simp] theorem setCr3_taskManager : (k.setCr3 address).taskManager = k.taskManager := rfl

@[simp] theorem enter_curPid : (k.enter pid).curPid = pid := rfl
@[simp] theorem enter_taskManager : (k.enter pid).taskManager = k.taskManager := rfl

@[simp] theorem setTask_self : (k.setTask pid t).taskManager pid = t :=
  Function.update_self ..

theorem setTask_of_ne {p : Nat} (h : p ≠ pid) :
    (k.setTask pid t).taskManager p = k.taskManager p :=
  Function.update_of_ne h ..

@[simp] theorem setRegisters_savedRegisters :
    ((k.setRegisters pid r).taskManager pid).savedRegisters = r := by
  simp [setRegisters]

/-- A field that the new record shares with the old one is the same in every slot. -/
theorem setTask_field {α : Type} (field : Task → α) (h : field t = field (k.taskManager pid))
    (p : Nat) : field ((k.setTask pid t).taskManager p) = field (k.taskManager p) := by
  by_cases hp : p = pid
  · rw [hp, setTask_self, h]
  · rw [setTask_of_ne k pid t hp]

@[simp] theorem setRegisters_exist (p : Nat) :
    ((k.setRegisters pid r).taskManager p).exist = (k.taskManager p).exist :=
  k.setTask_field pid { k.taskManager pid with savedRegisters := r } Task.exist rfl p

@[simp] theorem setRegisters_basePML4 (p : Nat) :
    ((k.setRegisters pid r).taskManager p).basePML4 = (k.taskManager p).basePML4 :=
  k.setTask_field pid { k.taskManager pid with savedRegisters := r } Task.basePML4 rfl p

@[simp] theorem setRegisters_memoryData (p : Nat) :
    ((k.setRegisters pid r).taskManager p).memoryData = (k.taskManager p).memoryData :=
  k.setTask_field pid { k.taskManager pid with savedRegisters := r } Task.memoryData rfl p

@[simp] theorem setState_exist (p : Nat) :
    ((k.setState pid s).taskManager p).exist = (k.taskManager p).exist :=
  k.setTask_field pid { k.taskManager pid with processState := s } Task.exist rfl p

@[simp] theorem setState_savedRegisters (p : Nat) :
    ((k.setState pid s).taskManager p).savedRegisters = (k.taskManager p).savedRegisters :=
  k.setTask_field pid { k.taskManager pid with processState := s } Task.savedRegisters rfl p

@[simp] theorem setState_memoryData (p : Nat) :
    ((k.setState pid s).taskManager p).memoryData = (k.taskManager p).memoryData :=
  k.setTask_field pid { k.taskManager pid with processState := s } Task.memoryData rfl p

end Kernel

/-- No task ceases to exist. -/
def Alive (k k' : Kernel) : Prop :=
  ∀ p, (k.taskManager p).exist = true → (k'.taskManager p).exist = true

namespace Alive

variable {k k' k'' : Kernel}

theorem refl : Alive k k := fun _ h => h

theorem trans (h : Alive k k') (g : Alive k' k'') : Alive k k'' := fun p hp => g p (h p hp)

theorem of_tasks (h : k'.taskManager = k.taskManager) : Alive k k' := fun p hp => by rw [h, hp]

/-- A record that exists takes the place of any other. -/
theorem setTask {pid : Nat} {t : Task} (h : (k.taskManager pid).exist = true → t.exist = true) :
    Alive k (k.setTask pid t) := by
  intro p hp
  by_cases hpp : p = pid
  · subst hpp; rw [Kernel.setTask_self]; exact h hp
  · rw [Kernel.setTask_of_ne _ _ _ hpp, hp]

end Alive

/-- Only memory, apart from the paging registers, and the regions of tasks may differ. -/
structure KeepsTasks (k k' : Kernel) : Prop where
  curPid : k'.curPid = k.curPid
  activeTSS : k'.activeTSS = k.activeTSS
  paging : k'.mem.paging = k.mem.paging
  task : ∀ p, k'.taskManager p =
    { k.taskManager p with memoryData := (k'.taskManager p).memoryData }

namespace KeepsTasks

variable {k k' k'' : Kernel}

theorem refl : KeepsTasks k k := ⟨rfl, rfl, rfl, fun _ => rfl⟩

theorem trans (h : KeepsTasks k k') (g : KeepsTasks k' k'') : KeepsTasks k k'' where
  curPid := g.curPid.trans h.curPid
  activeTSS := g.activeTSS.trans h.activeTSS
  paging := g.paging.trans h.paging
  task p := by rw [g.task p, h.task p]

theorem mem {m : Memory} (h : SameLayout k.mem m) : KeepsTasks k { k with mem := m } :=
  ⟨rfl, rfl, h.1, fun _ => rfl⟩

theorem memoryData (pid : Nat) (d : TaskMemoryDefinition) :
    KeepsTasks k (k.setMemoryData pid d) where
  curPid := rfl
  activeTSS := rfl
  paging := rfl
  task p := by
    by_cases hp : p = pid
    · subst hp; simp [Kernel.setMemoryData]
    · rw [Kernel.setMemoryData, Kernel.setTask_of_ne _ _ _ hp]

/-- A field other than the regions is kept. -/
theorem field (h : KeepsTasks k k') {α : Type} (f : Task → α)
    (hf : ∀ t d, f { t with memoryData := d } = f t) (p : Nat) :
    f (k'.taskManager p) = f (k.taskManager p) := by
  rw [h.task p, hf]

theorem exist (h : KeepsTasks k k') (p : Nat) :
    (k'.taskManager p).exist = (k.taskManager p).exist := h.field Task.exist (fun _ _ => rfl) p

theorem savedRegisters (h : KeepsTasks k k') (p : Nat) :
    (k'.taskManager p).savedRegisters = (k.taskManager p).savedRegisters :=
  h.field Task.savedRegisters (fun _ _ => rfl) p

theorem basePML4 (h : KeepsTasks k k') (p : Nat) :
    (k'.taskManager p).basePML4 = (k.taskManager p).basePML4 :=
  h.field Task.basePML4 (fun _ _ => rfl) p

end KeepsTasks

/-- The address spaces stay as they are: which are current, and which belong to which task. -/
structure KeepsSpaces (k k' : Kernel) : Prop where
  curPid : k'.curPid = k.curPid
  paging : k'.mem.paging = k.mem.paging
  exist : ∀ p, (k'.taskManager p).exist = (k.taskManager p).exist
  basePML4 : ∀ p, (k'.taskManager p).basePML4 = (k.taskManager p).basePML4

theorem KeepsSpaces.alive {k k' : Kernel} (h : KeepsSpaces k k') : Alive k k' :=
  fun p hp => (h.exist p).trans hp

theorem KeepsTasks.alive {k k' : Kernel} (h : KeepsTasks k k') : Alive k k' :=
  fun p hp => (h.exist p).trans hp

theorem KeepsTasks.spaces {k k' : Kernel} (h : KeepsTasks k k') : KeepsSpaces k k' :=
  ⟨h.curPid, h.paging, h.exist, h.basePML4⟩

namespace KeepsSpaces

variable {k k' k'' : Kernel}

theorem refl : KeepsSpaces k k := ⟨rfl, rfl, fun _ => rfl, fun _ => rfl⟩

theorem trans (h : KeepsSpaces k k') (g : KeepsSpaces k' k'') : KeepsSpaces k k'' where
  curPid := g.curPid.trans h.curPid
  paging := g.paging.trans h.paging
  exist p := (g.exist p).trans (h.exist p)
  basePML4 p := (g.basePML4 p).trans (h.basePML4 p)

theorem setTask {pid : Nat} {t : Task} (he : t.exist = (k.taskManager pid).exist)
    (hp : t.basePML4 = (k.taskManager pid).basePML4) : KeepsSpaces k (k.setTask pid t) :=
  ⟨rfl, rfl, k.setTask_field pid t Task.exist he, k.setTask_field pid t Task.basePML4 hp⟩

theorem setRegisters (pid : Nat) (r : InterruptRegisters) :
    KeepsSpaces k (k.setRegisters pid r) := setTask rfl rfl

theorem setState (pid : Nat) (s : ProcessState) : KeepsSpaces k (k.setState pid s) :=
  setTask rfl rfl

theorem ram {m : Memory} (h : m = { k.mem with ram := m.ram }) : KeepsSpaces k { k with mem := m } :=
  (KeepsTasks.mem (layout_of_ram h)).spaces

end KeepsSpaces

section Allocation

variable {k k' : Kernel} {pid n : Nat} {a : U64}

theorem kernelMalloc_keeps (h : kernelMalloc k = some (k', a)) : KeepsTasks k k' := by
  simp only [kernelMalloc, Option.bind_eq_bind, Option.bind_eq_some_iff, Prod.exists] at h
  obtain ⟨m, d, b, hm, h⟩ := h
  cases h
  exact (KeepsTasks.mem (malloc_layout hm)).trans (.memoryData 0 d)

theorem kernelCreateUserMemory_keeps (h : kernelCreateUserMemory k = some (k', a)) :
    KeepsTasks k k' := by
  simp only [kernelCreateUserMemory, Option.bind_eq_bind, Option.bind_eq_some_iff,
    Prod.exists] at h
  obtain ⟨m, d, b, hm, h⟩ := h
  cases h
  exact (KeepsTasks.mem (createUserMemory_layout hm)).trans (.memoryData 0 d)

theorem mallocKernelStack_keeps (h : mallocKernelStack k = some (k', a)) : KeepsTasks k k' := by
  simp only [mallocKernelStack, Option.bind_eq_bind, Option.bind_eq_some_iff, Prod.exists] at h
  obtain ⟨k₁, _, h₁, k₂, _, h₂, k₃, _, h₃, k₄, _, h₄, h₅⟩ := h
  exact (kernelMalloc_keeps h₁).trans <| (kernelMalloc_keeps h₂).trans <|
    (kernelMalloc_keeps h₃).trans <| (kernelMalloc_keeps h₄).trans (kernelMalloc_keeps h₅)

theorem allocSegment_keeps {permissions : PagePermissions}
    (h : allocSegment k pid permissions a n = some k') : KeepsTasks k k' := by
  induction n generalizing k a with
  | zero => cases h; exact .refl
  | succ n ih =>
    simp only [allocSegment, Option.bind_eq_bind, Option.bind_eq_some_iff, Prod.exists] at h
    obtain ⟨m, b, hm, h⟩ := h
    exact ((KeepsTasks.mem (allocPage_layout hm)).trans (.memoryData pid _)).trans (ih h)

theorem readHead_eq {m m' : Memory} {dev : Devices} {lba lba' processed : U64}
    {h : ProgramHeader64} (hr : readHead m dev lba h = some (m', lba', processed)) :
    m' = { m with ram := m'.ram } := by
  unfold readHead at hr
  dsimp only at hr
  split at hr
  · simp only [Option.bind_eq_bind, Option.bind_eq_some_iff] at hr
    obtain ⟨m₁, h₁, hr⟩ := hr
    cases hr
    exact copyOut_eq h₁
  · cases hr; rfl

/-- Reading file data into memory changes nothing but RAM. -/
theorem readSegment_eq {m m' : Memory} {dev : Devices} {lba : U64} {h : ProgramHeader64}
    (hr : readSegment m dev lba h = some m') : m' = { m with ram := m'.ram } := by
  simp only [readSegment, Option.bind_eq_bind, Option.bind_eq_some_iff, Prod.exists] at hr
  obtain ⟨m₁, lba₁, processed, h₁, hr⟩ := hr
  split at hr
  · rw [copyOut_eq hr, readHead_eq h₁]
  · cases hr; exact readHead_eq h₁

theorem loadSegment_keeps {dev : Devices} {lba : U64} {h : ProgramHeader64}
    (hl : loadSegment k dev lba pid h = some k') : KeepsTasks k k' := by
  unfold loadSegment at hl
  split at hl
  · simp only [Option.bind_eq_bind, Option.bind_eq_some_iff] at hl
    obtain ⟨k₁, h₁, m, hm, hl⟩ := hl
    cases hl
    refine KeepsTasks.trans ?_ ((allocSegment_keeps h₁).trans
      (.mem (layout_of_ram (readSegment_eq hm))))
    split
    · exact .memoryData pid _
    · exact .refl
  · cases hl; exact .refl

theorem loadSegments_keeps {dev : Devices} {lba : U64} {hs : List ProgramHeader64}
    (h : loadSegments k dev lba pid hs = some k') : KeepsTasks k k' := by
  induction hs generalizing k with
  | nil => cases h; exact .refl
  | cons x xs ih =>
    simp only [loadSegments, Option.bind_eq_bind, Option.bind_eq_some_iff] at h
    obtain ⟨k₁, h₁, h⟩ := h
    exact (loadSegment_keeps h₁).trans (ih h)

theorem allocStack_keeps (h : allocStack k pid = some k') : KeepsTasks k k' := by
  simp only [allocStack, Option.bind_eq_bind, Option.bind_eq_some_iff, Prod.exists] at h
  obtain ⟨m, stack, hm, m', hm', h⟩ := h
  cases h
  exact (KeepsTasks.mem ((allocPage_layout hm).trans (layout_of_ram (copyOut_eq hm')))).trans
    (.memoryData pid _)

end Allocation

/-! ## Tearing down and loading -/

/-- `free_task_memory` leaves the freed task current, and every record alone. -/
theorem freeTaskMemory_tasks {fuel pid : Nat} {k k' : Kernel}
    (h : freeTaskMemory fuel k pid = some k') :
    k'.curPid = pid ∧ k'.taskManager = k.taskManager ∧ k'.activeTSS = k.activeTSS := by
  simp only [freeTaskMemory, Option.bind_eq_bind, Option.bind_eq_some_iff] at h
  obtain ⟨m, -, h⟩ := h
  split at h <;> (cases h; exact ⟨rfl, rfl, rfl⟩)

/-- The frame a program starts with: no arguments, two words on its stack. -/
def startFrame (entryPoint : U64) : InterruptRegisters :=
  { zeroRegisters with
    cs := 0x1B
    ss := 0x23
    rip := entryPoint
    rbp := stackBase + 4080
    rsp := stackBase + 4064 }

/-- Without arguments only the null pointer and the argument count are pushed. -/
theorem setupTaskStack_nil {k k' : Kernel} {pid : Nat} (h : setupTaskStack k pid [] = some k') :
    ∃ m, k' = { k with mem := m }.setRegisters pid
      { (k.taskManager pid).savedRegisters with
        rsp := (k.taskManager pid).savedRegisters.rsp - 8 - 8 } := by
  simp only [setupTaskStack, pushStrings, Option.bind_eq_bind, Option.bind_eq_some_iff,
    Prod.exists, Option.some.injEq, Prod.mk.injEq] at h
  obtain ⟨_, _, _, ⟨rfl, rfl, rfl⟩, m, stack, hw, m', -, rfl⟩ := h
  obtain rfl : (k.taskManager pid).savedRegisters.rsp - 8 = stack := by
    simp only [pushWords, List.nil_append, Option.bind_eq_bind, Option.bind_some,
      Option.bind_eq_some_iff, Option.some.injEq, Prod.mk.injEq] at hw
    obtain ⟨_, -, -, rfl⟩ := hw
    rfl
  exact ⟨_, rfl⟩

/-- What `LoadElfStrict` does to the task table: nothing, or a new program in slot `pid`. -/
theorem loadElfStrict_tasks {k k' : Kernel} {dev : Devices} {lba newPML4 : U64} {pid : Nat}
    (h : loadElfStrict k dev lba pid newPML4 [] = some k') :
    k' = k ∨ elfAccepted (elfHeader (dev.readLBA lba)) = true ∧
      k'.curPid = k.curPid ∧ (k'.taskManager pid).exist = true ∧
        (k'.taskManager pid).savedRegisters = startFrame (elfHeader (dev.readLBA lba)).eEntry ∧
        ∀ p, p ≠ pid → ∃ d, k'.taskManager p = { k.taskManager p with memoryData := d } := by
  unfold loadElfStrict at h
  dsimp only at h
  split at h
  next accepted =>
    simp only [Option.bind_eq_bind, Option.bind_eq_some_iff, Prod.exists] at h
    obtain ⟨k₁, h₁, k₂, h₂, k₃, stack, h₃, k₄, h₄, h⟩ := h
    cases h
    have keeps := (allocStack_keeps h₁).trans <| (loadSegments_keeps h₂).trans <|
      (KeepsTasks.memoryData pid _).trans <| (mallocKernelStack_keeps h₃).trans
        (.memoryData pid { (k₃.taskManager pid).memoryData with
          kernelStackBaseVirtualAddress := stack })
    obtain ⟨m, rfl⟩ := setupTaskStack_nil h₄
    right
    refine ⟨accepted, rfl, ?_, ?_, fun p hp => ?_⟩
    · simp [Kernel.setState, Kernel.setRegisters, registerTaskStrict, registeredTask]
    · simp [Kernel.setState, Kernel.setRegisters, registerTaskStrict, registeredTask, startFrame,
        stackBase]
    · have same := keeps.task p
      simp only [Kernel.setTask_of_ne _ _ _ hp, Kernel.setCr3_taskManager] at same
      simp only [Kernel.setState, Kernel.setRegisters, registerTaskStrict,
        Kernel.setCr3_taskManager, Kernel.setTask_of_ne _ _ _ hp]
      exact ⟨_, same⟩
  · cases h; exact .inl rfl

theorem findFreePID_free {k : Kernel} (room : findFreePID k ≠ taskCount + 1) :
    (k.taskManager (findFreePID k)).exist = false := by
  unfold findFreePID at room ⊢
  cases found : (List.range taskCount).find? fun i => !(k.taskManager i).exist with
  | none =>
    rw [found] at room
    exact absurd rfl room
  | some i => simpa using List.find?_some found

/-- `FindFreePID` does not return a slot that is taken. -/
theorem taken_ne_findFreePID {k : Kernel} {p : Nat} (hp : p ≤ taskCount)
    (taken : (k.taskManager p).exist = true) : p ≠ findFreePID k := by
  by_cases full : findFreePID k = taskCount + 1
  · omega
  · intro eq
    rw [eq, findFreePID_free full] at taken
    cases taken

/-- Registering a task leaves a task that exists alone. With a full table the slot is 1. -/
theorem registerTask_others {k : Kernel} {p : Nat} (exist : (k.taskManager p).exist = true)
    (free : p = 1 → findFreePID k ≠ taskCount + 1) (base entry count : U64) (ticks : U8)
    (stack pml4 : U64) : p ≠ (registerTask k base entry count ticks stack pml4).2 ∧
      (registerTask k base entry count ticks stack pml4).1.taskManager p = k.taskManager p := by
  unfold registerTask
  dsimp only
  split
  next full => exact ⟨fun slot => free slot full, rfl⟩
  next room =>
    have taken : p ≠ findFreePID k := by
      intro eq
      rw [eq, findFreePID_free room] at exist
      cases exist
    dsimp only [registerTaskStrict]
    exact ⟨taken, Kernel.setTask_of_ne _ _ _ taken⟩

end ChudOS
