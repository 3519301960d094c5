import ChudOS.ContextSwitch
import ChudOS.LowLevel.VirtualMemory
import ChudOS.Userland.SignalsFrame

/-!
# Nested signals

What a program gets back when a signal handler returns, however many signals its handler was
interrupted by. `r8` is not in the frame, so it comes back as the handler left it.

## Main definitions

* `Delivered`, `Returned` — one `SendSignal` and one `SignalReturn` of a task.
* `Handling` — the execution of a handler, with the signals that interrupt it.
-/

namespace ChudOS

open Memory

/-- Memory as a task sees it, in its own address space. -/
def taskMemory (k : Kernel) (pid : Nat) : Memory :=
  memSetCr3 k.mem (k.taskManager pid).basePML4

/-- The registers a program works with. -/
def programRegisters (r : InterruptRegisters) : List U64 :=
  [r.rip, r.rsp, r.rax, r.rbx, r.rcx, r.rdx, r.rbp, r.rsi, r.rdi, r.r8, r.r9, r.r10, r.r11, r.r12,
    r.r13, r.r14, r.r15]

/-- `SendSignal` starts a handler, with the registers of the task saved at `frame`, in the stack of
the task and right below its stack pointer. -/
structure Delivered (pid : Nat) (frame : U64) (k k' : Kernel) : Prop where
  exist : (k.taskManager pid).exist = true
  sent : ∃ ident arg0 arg1 arg2 arg3,
    ((k.taskManager pid).signals ident.toNat).registered = true ∧
      memAccessOk k ((k.taskManager pid).signals ident.toNat).entry pid = true ∧
        sendSignal k pid ident arg0 arg1 arg2 arg3 = some k'
  /-- The address space that `EstablishSignalStack` takes for the task's is the task's. -/
  own : (k.taskManager pid).processID = k.curPid →
    k.mem.paging.cr3 = (k.taskManager pid).basePML4
  top : frame.toNat + 128 = (k.taskManager pid).savedRegisters.rsp.toNat
  room : PrivateRange (taskMemory k pid) frame 128

/-- The handler with its frame at `frame` calls `SIGRET`. -/
structure Returned (pid : Nat) (frame : U64) (k k' : Kernel) : Prop where
  exist : (k.taskManager pid).exist = true
  returned : signalReturn k pid = some k'
  restored : (k.taskManager pid).savedRegisters.r12 = frame
  own : pid = k.curPid → k.mem.paging.cr3 = (k.taskManager pid).basePML4

/-- The handler with its frame at `frame` runs. It may change any register and any memory below its
frame, and signals that interrupt it find the stack pointer there. -/
inductive Handling (pid : Nat) : U64 → Kernel → Kernel → Prop
  | refl (frame : U64) (k : Kernel) : Handling pid frame k k
  | run {frame : U64} {k k₁ k₂ : Kernel} :
      (∀ c : U64, c.toNat < userEnd → frame.toNat ≤ c.toNat →
        loadByte (taskMemory k₁ pid) c = loadByte (taskMemory k pid) c) →
      Handling pid frame k₁ k₂ → Handling pid frame k k₂
  | signal {frame inner : U64} {k k₁ k₂ k₃ k₄ : Kernel} :
      Delivered pid inner k k₁ → inner.toNat + 128 ≤ frame.toNat → Handling pid inner k₁ k₂ →
      Returned pid inner k₂ k₃ → Handling pid frame k₃ k₄ → Handling pid frame k k₄

variable {k k' : Kernel} {pid : Nat} {m m' : Memory} {a x lo frame : U64} {xs : List U64}

/-! ## Memory in another address space -/

theorem taskMemory_setState (s : ProcessState) : taskMemory (k.setState pid s) pid =
    taskMemory k pid := by
  simp only [taskMemory, Kernel.setState, Kernel.setTask_self]
  rfl

theorem taskMemory_setRegisters (r : InterruptRegisters) : taskMemory (k.setRegisters pid r) pid =
    taskMemory k pid := by
  simp only [taskMemory, Kernel.setRegisters, Kernel.setTask_self]
  rfl

theorem translate_of_view (ram : m'.ram = m.ram) (cr3 : m'.paging.cr3 = m.paging.cr3) (c : U64) :
    translate m' c = translate m c := by
  simp only [translate, pageWalk, Memory.entry, ram, cr3]

theorem loadByte_of_view (ram : m'.ram = m.ram) (cr3 : m'.paging.cr3 = m.paging.cr3) (c : U64) :
    loadByte m' c = loadByte m c := by
  simp only [loadByte, translate_of_view ram cr3, ram]

theorem PrivateRange.of_view {n : Nat} (h : PrivateRange m a n) (ram : m'.ram = m.ram)
    (cr3 : m'.paging.cr3 = m.paging.cr3) : PrivateRange m' a n := by
  refine ⟨h.1, fun c ge lt => (h.2 c ge lt).imp fun f hf => ⟨?_, ?_, fun d hd eq => ?_⟩⟩
  · rw [translate_of_view ram cr3, hf.mapped]
  · have tables : m'.tables = m.tables := by funext t i; simp only [Memory.tables, ram]
    have table : IsTable m' {frameOf m'.paging.cr3} f ↔ IsTable m {frameOf m.paging.cr3} f := by
      simp only [IsTable, Memory.tableAt, tables, cr3]
    exact fun h => hf.data (table.mp h)
  · rw [translate_of_view ram cr3] at eq
    exact hf.alone d hd eq

theorem HoldsBytes.of_view {bs : List U8} (h : HoldsBytes m a bs) (ram : m'.ram = m.ram)
    (cr3 : m'.paging.cr3 = m.paging.cr3) : HoldsBytes m' a bs :=
  fun c i hi at_i => (loadByte_of_view ram cr3 c).trans (h c i hi at_i)

theorem holdsBytes_append {bs cs : List U8} {b : U64} (left : HoldsBytes m a bs)
    (right : HoldsBytes m b cs) (at_b : b.toNat = a.toNat + bs.length) :
    HoldsBytes m a (bs ++ cs) := by
  intro c i hi at_i
  rcases Nat.lt_or_ge i bs.length with lt | ge
  · rw [List.getElem_append_left lt]
    exact left c i lt at_i
  · rw [List.getElem_append_right ge]
    exact right c (i - bs.length) _ (by omega)

theorem HoldsBytes.left {bs cs : List U8} (h : HoldsBytes m a (bs ++ cs)) : HoldsBytes m a bs := by
  intro c i hi at_i
  have := h c i (by rw [List.length_append]; omega) at_i
  rwa [List.getElem_append_left hi] at this

theorem HoldsBytes.right {bs cs : List U8} {b : U64} (h : HoldsBytes m a (bs ++ cs))
    (at_b : b.toNat = a.toNat + bs.length) : HoldsBytes m b cs := by
  intro c i hi at_i
  have := h c (bs.length + i) (by rw [List.length_append]; omega) (by omega)
  rw [List.getElem_append_right (Nat.le_add_right _ _)] at this
  simpa using this

theorem length_words (xs : List U64) : (xs.flatMap bytesOf64).length = 8 * xs.length := by
  induction xs with
  | nil => rfl
  | cons x xs ih =>
    rw [List.flatMap_cons, List.length_append, ih, length_bytesOf64, List.length_cons]
    omega

/-! ## The stack of a task -/

theorem Kernel.setRegisters_again (k : Kernel) (pid : Nat) (r r' : InterruptRegisters)
    (m : Memory) : { k.setRegisters pid r with mem := m }.setRegisters pid r' =
      { k with mem := m }.setRegisters pid r' := by
  simp [Kernel.setRegisters, Kernel.setTask]

theorem Kernel.setRegisters_twice (k : Kernel) (pid : Nat) (r r' : InterruptRegisters) :
    (k.setRegisters pid r).setRegisters pid r' = k.setRegisters pid r' := by
  simp [Kernel.setRegisters, Kernel.setTask]

theorem Kernel.setRegisters_own (k : Kernel) (pid : Nat) :
    k.setRegisters pid (k.taskManager pid).savedRegisters = k := by
  simp [Kernel.setRegisters, Kernel.setTask]

theorem sub_eight_toNat (h : 8 ≤ a.toNat) : (a - 8).toNat = a.toNat - 8 := by
  have := a.isLt
  rw [BitVec.toNat_sub]
  change (2 ^ 64 - 8 + a.toNat) % 2 ^ 64 = _
  omega

theorem add_eight_toNat (h : a.toNat + 8 ≤ userEnd) : (a + 8).toNat = a.toNat + 8 := by
  unfold userEnd at h
  rw [BitVec.toNat_add]
  change (a.toNat + 8) % 2 ^ 64 = _
  omega

/-- Pushing words on a stack with room for them, down to the address `lo`. -/
theorem taskStackPushAll_private (exist : (k.taskManager pid).exist = true)
    (at_top : lo.toNat + 8 * xs.length = (k.taskManager pid).savedRegisters.rsp.toNat)
    (room : PrivateRange k.mem lo (8 * xs.length)) :
    ∃ m', taskStackPushAll k pid xs = some ({ k with mem := m' }.setRegisters pid
        { (k.taskManager pid).savedRegisters with rsp := lo }) ∧
      Written k.mem m' lo (8 * xs.length) ∧ HoldsBytes m' lo (xs.reverse.flatMap bytesOf64) := by
  induction xs generalizing k with
  | nil =>
    obtain rfl : lo = (k.taskManager pid).savedRegisters.rsp := BitVec.eq_of_toNat_eq at_top
    exact ⟨k.mem, congrArg some (k.setRegisters_own pid).symm, ⟨.refl, fun _ _ _ => rfl⟩,
      fun c i hi => absurd hi (Nat.not_lt_zero i)⟩
  | cons x xs ih =>
    rw [List.length_cons] at at_top room
    have c := sub_eight_toNat (a := (k.taskManager pid).savedRegisters.rsp) (by omega)
    obtain ⟨m₁, stored, written₁, held₁⟩ := store64_of_private
      (room.mono (c := (k.taskManager pid).savedRegisters.rsp - 8) (k := 8) (by omega) (by omega)) x
    have push : taskStackPush k pid x = some ({ k with mem := m₁ }.setRegisters pid
        { (k.taskManager pid).savedRegisters with
          rsp := (k.taskManager pid).savedRegisters.rsp - 8 }) := by
      rw [taskStackPush]
      simp only [exist, if_true, stored]
      rfl
    obtain ⟨m₂, pushed, written₂, held₂⟩ := ih (k := { k with mem := m₁ }.setRegisters pid
        { (k.taskManager pid).savedRegisters with
          rsp := (k.taskManager pid).savedRegisters.rsp - 8 })
      (by rw [Kernel.setRegisters_exist]; exact exist)
      (by rw [Kernel.setRegisters_savedRegisters]; dsimp only; omega)
      ((room.mono (Nat.le_refl _) (by omega)).of_sameSpace written₁.toSameSpace)
    rw [Kernel.setRegisters_again, Kernel.setRegisters_savedRegisters] at pushed
    have low := room.1
    refine ⟨m₂, by rw [taskStackPushAll, push]; exact pushed,
      ⟨written₁.trans written₂.toSameSpace, fun d hd apart => ?_⟩, ?_⟩
    · rw [List.length_cons] at apart
      exact (written₂.same d hd (by omega)).trans (written₁.same d hd (by omega))
    · rw [List.reverse_cons, List.flatMap_append, List.flatMap_singleton]
      refine holdsBytes_append held₂ (held₁.of_written written₂ ?_ ?_) ?_
      · rw [length_bytesOf64]; omega
      · exact .inr (by omega)
      · rw [length_words, List.length_reverse]; omega

/-- Popping the words at the stack pointer. -/
theorem taskStackPopAll_holds (exist : (k.taskManager pid).exist = true)
    (held : HoldsBytes k.mem (k.taskManager pid).savedRegisters.rsp (xs.flatMap bytesOf64))
    (low : (k.taskManager pid).savedRegisters.rsp.toNat + 8 * xs.length ≤ userEnd) :
    ∃ sp, taskStackPopAll k pid xs.length = some (k.setRegisters pid
      { (k.taskManager pid).savedRegisters with rsp := sp }, xs) := by
  induction xs generalizing k with
  | nil => exact ⟨_, congrArg (fun k => some (k, [])) (k.setRegisters_own pid).symm⟩
  | cons x xs ih =>
    rw [List.length_cons] at low
    rw [List.flatMap_cons] at held
    have c := add_eight_toNat (a := (k.taskManager pid).savedRegisters.rsp) (by omega)
    have load := load64_of_holds held.left (by omega)
    have pop : taskStackPop k pid = some (k.setRegisters pid
        { (k.taskManager pid).savedRegisters with
          rsp := (k.taskManager pid).savedRegisters.rsp + 8 }, x) := by
      rw [taskStackPop]
      simp only [exist, if_true, load]
      rfl
    obtain ⟨sp, popped⟩ := ih (k := k.setRegisters pid
        { (k.taskManager pid).savedRegisters with
          rsp := (k.taskManager pid).savedRegisters.rsp + 8 })
      (by rw [Kernel.setRegisters_exist]; exact exist)
      (by
        rw [Kernel.setRegisters_savedRegisters]
        exact held.right (by rw [c, length_bytesOf64]))
      (by rw [Kernel.setRegisters_savedRegisters]; dsimp only; omega)
    have again := k.setRegisters_again pid
      { (k.taskManager pid).savedRegisters with
        rsp := (k.taskManager pid).savedRegisters.rsp + 8 }
    refine ⟨sp, ?_⟩
    rw [List.length_cons, taskStackPopAll, pop]
    simp only [Option.bind_eq_bind, Option.bind_some, popped]
    rw [Kernel.setRegisters_savedRegisters]
    exact congrArg (fun k => some (k, x :: xs)) (again _ k.mem)

/-! ## Delivery -/

theorem select_tasks (c : Prop) [Decidable c] (k : Kernel) (a : U64) :
    (if c then k else k.setCr3 a).taskManager = k.taskManager := by split_ifs <;> rfl

theorem select_ram (c : Prop) [Decidable c] (k : Kernel) (a : U64) :
    (if c then k else k.setCr3 a).mem.ram = k.mem.ram := by split_ifs <;> rfl

theorem select_cr3 {c : Prop} [Decidable c] (h : c → k.mem.paging.cr3 = a) :
    (if c then k else k.setCr3 a).mem.paging.cr3 = a := by
  split_ifs with hc
  · exact h hc
  · rfl

/-- What a task finds in its registers and in its memory after `EstablishSignalStack`. -/
structure FrameSaved (pid : Nat) (frame : U64) (k k' : Kernel) : Prop where
  task : k'.taskManager pid = { k.taskManager pid with
    processState := .ready
    savedRegisters := { (k.taskManager pid).savedRegisters with rsp := frame, r12 := frame } }
  memory : ∀ c : U64, c.toNat < userEnd → ¬(frame.toNat ≤ c.toNat ∧ c.toNat < frame.toNat + 128) →
    loadByte (taskMemory k' pid) c = loadByte (taskMemory k pid) c
  held : HoldsBytes (taskMemory k' pid) frame
    ((signalFrame (k.taskManager pid).savedRegisters).reverse.flatMap bytesOf64)

theorem establishSignalStack_saves (exist : (k.taskManager pid).exist = true)
    (own : (k.taskManager pid).processID = k.curPid →
      k.mem.paging.cr3 = (k.taskManager pid).basePML4)
    (top : frame.toNat + 128 = (k.taskManager pid).savedRegisters.rsp.toNat)
    (room : PrivateRange (taskMemory k pid) frame 128) :
    ∃ k', establishSignalStack k pid = some k' ∧ FrameSaved pid frame k k' := by
  let entered := (if (k.taskManager pid).processID = k.curPid then k
    else k.setCr3 (k.taskManager pid).basePML4).setState pid .creation
  have task : entered.taskManager pid = { k.taskManager pid with processState := .creation } := by
    simp only [entered, Kernel.setState, Kernel.setTask_self, select_tasks]
  have registers : (entered.taskManager pid).savedRegisters = (k.taskManager pid).savedRegisters := by
    rw [task]
  have ram : entered.mem.ram = k.mem.ram := select_ram _ k _
  have cr3 : entered.mem.paging.cr3 = (k.taskManager pid).basePML4 := select_cr3 own
  obtain ⟨m, pushed, written, held⟩ := @taskStackPushAll_private entered pid frame
    (signalFrame (k.taskManager pid).savedRegisters) (by rw [task]; exact exist)
    (by rw [registers]; exact top) (room.of_view ram cr3)
  have cr3' : m.paging.cr3 = (k.taskManager pid).basePML4 := by rw [written.paging, cr3]
  let saved := ({ entered with mem := m }.setRegisters pid
    { (entered.taskManager pid).savedRegisters with rsp := frame, r12 := frame }).setState pid .ready
  have runs : establishSignalStack k pid =
      some (if (k.taskManager pid).processID = k.curPid then saved
        else saved.setCr3 k.mem.paging.pml4Physical) := by
    rw [establishSignalStack]
    simp only [exist, if_true]
    rw [pushed]
    simp only [Option.bind_eq_bind, Option.bind_some, Kernel.setRegisters_savedRegisters,
      Kernel.setRegisters_twice]
    split_ifs
    · rfl
    · rfl
  have kept : saved.taskManager pid = { k.taskManager pid with
      processState := .ready
      savedRegisters := { (k.taskManager pid).savedRegisters with rsp := frame, r12 := frame } } := by
    simp only [saved, Kernel.setState, Kernel.setRegisters, Kernel.setTask_self, task]
  have kept' := (congrFun (select_tasks ((k.taskManager pid).processID = k.curPid) saved
    k.mem.paging.pml4Physical) pid).trans kept
  have view : (taskMemory (if (k.taskManager pid).processID = k.curPid then saved
      else saved.setCr3 k.mem.paging.pml4Physical) pid).paging.cr3 = m.paging.cr3 := by
    rw [taskMemory, kept', cr3']
    rfl
  have ram' : (taskMemory (if (k.taskManager pid).processID = k.curPid then saved
      else saved.setCr3 k.mem.paging.pml4Physical) pid).ram = m.ram :=
    select_ram _ saved _
  refine ⟨_, runs, kept', fun c hc apart => ?_, held.of_view ram' view⟩
  rw [loadByte_of_view ram' view, written.same c hc apart]
  exact loadByte_of_view (m := taskMemory k pid) ram cr3 c

/-- What a task finds in its registers and in its memory when its handler starts. -/
structure HandlerStarted (pid : Nat) (frame : U64) (k k' : Kernel) : Prop where
  r8 : (k'.taskManager pid).savedRegisters.r8 = (k.taskManager pid).savedRegisters.r8
  memory : ∀ c : U64, c.toNat < userEnd → ¬(frame.toNat ≤ c.toNat ∧ c.toNat < frame.toNat + 128) →
    loadByte (taskMemory k' pid) c = loadByte (taskMemory k pid) c
  held : HoldsBytes (taskMemory k' pid) frame
    ((signalFrame (k.taskManager pid).savedRegisters).reverse.flatMap bytesOf64)

theorem Delivered.started (h : Delivered pid frame k k') : HandlerStarted pid frame k k' := by
  obtain ⟨exist, ⟨ident, arg0, arg1, arg2, arg3, registered, entry, sent⟩, own, top, room⟩ := h
  have task : (k.setState pid .creation).taskManager pid =
      { k.taskManager pid with processState := .creation } := by
    simp only [Kernel.setState, Kernel.setTask_self]
  obtain ⟨k₁, saves, saved⟩ := @establishSignalStack_saves (k.setState pid .creation) pid frame
    (by rw [task]; exact exist) (by rw [task]; exact own) (by rw [task]; exact top)
    (by rw [taskMemory_setState]; exact room)
  have entry' : memAccessOk (k.setState pid .creation)
      ((k.taskManager pid).signals ident.toNat).entry pid = true := by
    rw [memAccessOk, task]
    exact entry
  rw [sendSignal] at sent
  simp only [exist, registered, entry', saves, Bool.true_eq_false, or_self, if_false, if_true,
    Option.bind_eq_bind, Option.bind_some, Option.some.injEq] at sent
  obtain ⟨task₁, memory, held⟩ := saved
  rw [task] at task₁ held
  subst sent
  refine ⟨?_, fun c hc apart => ?_, ?_⟩
  · rw [Kernel.setState_savedRegisters, Kernel.setRegisters_savedRegisters, task₁]
  · rw [taskMemory_setState, taskMemory_setRegisters, memory c hc apart, taskMemory_setState]
  · rw [taskMemory_setState, taskMemory_setRegisters]
    exact held

/-! ## Return -/

/-- `SignalReturn` reads the frame and writes nothing. -/
theorem Returned.restores {r : InterruptRegisters} (h : Returned pid frame k k')
    (low : frame.toNat + 128 ≤ userEnd)
    (held : HoldsBytes (taskMemory k pid) frame ((signalFrame r).reverse.flatMap bytesOf64)) :
    programRegisters (k'.taskManager pid).savedRegisters =
        programRegisters { r with r8 := (k.taskManager pid).savedRegisters.r8 } ∧
      ∀ c, loadByte (taskMemory k' pid) c = loadByte (taskMemory k pid) c := by
  obtain ⟨exist, returned, restored, own⟩ := h
  let entered := ((if pid = k.curPid then k else k.setCr3 (k.taskManager pid).basePML4).setState pid
    .creation).setRegisters pid
      { (k.taskManager pid).savedRegisters with rsp := (k.taskManager pid).savedRegisters.r12 }
  have task : entered.taskManager pid = { k.taskManager pid with
      processState := .creation
      savedRegisters := { (k.taskManager pid).savedRegisters with
        rsp := (k.taskManager pid).savedRegisters.r12 } } := by
    simp only [entered, Kernel.setState, Kernel.setRegisters, Kernel.setTask_self, select_tasks]
  have ram : entered.mem.ram = k.mem.ram := select_ram _ k _
  have cr3 : entered.mem.paging.cr3 = (k.taskManager pid).basePML4 := select_cr3 own
  obtain ⟨sp, popped⟩ := @taskStackPopAll_holds entered pid (signalFrame r).reverse
    (by rw [task]; exact exist)
    (by rw [task]; dsimp only; rw [restored]; exact held.of_view ram cr3)
    (by rw [task]; dsimp only; rw [restored]; exact low)
  change taskStackPopAll entered pid 16 = _ at popped
  rw [signalReturn] at returned
  simp only [exist, if_true] at returned
  change (taskStackPopAll entered pid 16).bind _ = some k' at returned
  rw [popped] at returned
  simp only [Option.bind_some, Option.some.injEq, Kernel.setRegisters_savedRegisters,
    Kernel.setRegisters_twice] at returned
  subst returned
  refine ⟨?_, fun c => loadByte_of_view ?_ ?_ c⟩
  · rw [Kernel.setState_savedRegisters, select_tasks, Kernel.setRegisters_savedRegisters, task]
    rfl
  · rw [taskMemory_setState]
    exact (select_ram _ _ _).trans ram
  · rw [taskMemory_setState, taskMemory, select_tasks]
    change ((entered.setRegisters pid _).taskManager pid).basePML4 = _
    rw [Kernel.setRegisters_basePML4, task]
    rfl

/-! ## Nesting -/

/-- The words of a frame are still there if the memory from it on is. -/
theorem HoldsBytes.of_same {bs : List U8} (h : HoldsBytes m frame bs)
    (low : frame.toNat + bs.length ≤ userEnd)
    (same : ∀ c : U64, c.toNat < userEnd → frame.toNat ≤ c.toNat → loadByte m' c = loadByte m c) :
    HoldsBytes m' frame bs := by
  intro c i hi at_i
  rw [same c (by omega) (by omega)]
  exact h c i hi at_i

theorem length_signalFrame (r : InterruptRegisters) :
    ((signalFrame r).reverse.flatMap bytesOf64).length = 128 := by
  rw [length_words, List.length_reverse]
  rfl

/-- A handler leaves the memory from its frame on as it was, with all the signals it takes. -/
theorem Handling.keeps (h : Handling pid frame k k') : ∀ c : U64, c.toNat < userEnd →
    frame.toNat ≤ c.toNat → loadByte (taskMemory k' pid) c = loadByte (taskMemory k pid) c := by
  induction h with
  | refl => exact fun _ _ _ => rfl
  | run same _ ih => exact fun c low ge => (ih c low ge).trans (same c low ge)
  | @signal _ inner _ _ _ _ _ sent below _ returned _ ihInner ih =>
    intro c low ge
    have room := sent.room.1
    have started := sent.started
    have held := started.held.of_same (by rw [length_signalFrame]; exact room) ihInner
    calc _ = _ := ih c low ge
      _ = _ := (returned.restores room held).2 c
      _ = _ := ihInner c low (by omega)
      _ = _ := started.memory c low (by omega)

/-- A signal that a program takes, with any signals nested in it, gives back every register but
`r8`, which comes back as the handler left it. `SendSignal` changes no memory from the stack pointer
on. -/
theorem signalReturn_restores_iff {k₁ k₂ k₃ : Kernel} (sent : Delivered pid frame k k₁)
    (handled : Handling pid frame k₁ k₂) (returned : Returned pid frame k₂ k₃) :
    (∀ c : U64, c.toNat < userEnd → (k.taskManager pid).savedRegisters.rsp.toNat ≤ c.toNat →
        loadByte (taskMemory k₁ pid) c = loadByte (taskMemory k pid) c) ∧
      (programRegisters (k₃.taskManager pid).savedRegisters =
          programRegisters (k.taskManager pid).savedRegisters ↔
        (k₂.taskManager pid).savedRegisters.r8 = (k.taskManager pid).savedRegisters.r8) := by
  have room := sent.room.1
  have top := sent.top
  have started := sent.started
  have held := started.held.of_same (by rw [length_signalFrame]; exact room) handled.keeps
  refine ⟨fun c low ge => started.memory c low (by omega), ?_⟩
  rw [(returned.restores room held).1]
  simp [programRegisters]

/-! ## The shell takes a signal -/

theorem shell_stack_alone {c : U64} (low : c.toNat < userEnd)
    (h : translate shellMemory c = some 8) : c.toNat / 0x1000 = stackBase.toNat / 0x1000 := by
  have root : frameOf shellMemory.paging.cr3 = 1 := by decide
  simp only [translate, pageWalk, root, Option.bind_eq_bind, Option.bind_eq_some_iff,
    Option.some.injEq] at h
  obtain ⟨slot, ⟨t₁, h₁, t₂, h₂, t₃, h₃, rfl⟩, h₄⟩ := h
  have l₁ := shellRam_link h₁
  have l₂ := shellRam_link h₂
  have l₃ := shellRam_link h₃
  have l₄ := shellRam_link h₄
  simp only [extractPageEntries, index_toNat c 39, index_toNat c 30, index_toNat c 21,
    index_toNat c 12, List.mem_cons, List.not_mem_nil, Prod.mk.injEq, or_false] at l₁ l₂ l₃ l₄
  unfold userEnd at low
  have base : stackBase.toNat = 0x7FFF0000 := rfl
  omega

/-- The shell has registered a handler for `SIGCHD`. -/
def listeningKernel : Kernel := registerSignal shellKernel 1 0 0x400010

/-- Where the frame of the first signal is saved. -/
def shellFrame : U64 := stackBase + 4080 - 128

/-- The handler starts. -/
def handlingKernel : Kernel := (sendSignal listeningKernel 1 0 0 0 0 0).getD listeningKernel

theorem shell_stack_private : PrivateRange shellMemory shellFrame 128 := by
  refine ⟨by decide, fun c ge lt => ⟨8, ?_, fun ⟨r, hr, p, hp, table⟩ => ?_, fun d low h => ?_⟩⟩
  · have mapped : ∀ i : Fin 128,
        translate shellMemory (shellFrame + BitVec.ofNat 64 i.val) = some 8 := by decide +kernel
    have frame : shellFrame.toNat = 0x7FFF0F70 := rfl
    obtain ⟨i, hi⟩ : ∃ i : Fin 128, shellFrame + BitVec.ofNat 64 i.val = c := by
      refine ⟨⟨c.toNat - shellFrame.toNat, by omega⟩, BitVec.eq_of_toNat_eq ?_⟩
      rw [BitVec.toNat_add, BitVec.toNat_ofNat]
      dsimp only
      omega
    rw [← hi]
    exact mapped i
  · have root : r = 1 := hr
    have level := shellLevel_tableAt (root ▸ table)
    change 4 = p.length at level
    omega
  · have page := shell_stack_alone low h
    have frame : shellFrame.toNat = 0x7FFF0F70 := rfl
    have base : stackBase.toNat = 0x7FFF0000 := rfl
    omega

theorem shell_delivered : Delivered 1 shellFrame listeningKernel handlingKernel where
  exist := by decide +kernel
  sent := by
    have sent : (sendSignal listeningKernel 1 0 0 0 0 0).isSome = true := by decide +kernel
    obtain ⟨k', eq⟩ := Option.isSome_iff_exists.mp sent
    refine ⟨0, 0, 0, 0, 0, by decide +kernel, by decide +kernel, ?_⟩
    rw [handlingKernel, eq]
    rfl
  own current := absurd current (by decide +kernel)
  top := by decide +kernel
  room := shell_stack_private

/-- The handler changes `rax`, and leaves `r8` or not. -/
def handledKernel (r8 : U64) : Kernel :=
  handlingKernel.setRegisters 1
    { (handlingKernel.taskManager 1).savedRegisters with rax := 5, r8 := r8 }

theorem shell_handled (r8 : U64) :
    Handling 1 shellFrame handlingKernel (handledKernel r8) :=
  .run (fun c _ _ => congrArg (loadByte · c) (taskMemory_setRegisters _)) (.refl _ _)

/-- The handler returns. -/
def returnedKernel (r8 : U64) : Kernel :=
  (signalReturn (handledKernel r8) 1).getD (handledKernel r8)

theorem shell_returned (r8 : U64) (h : (signalReturn (handledKernel r8) 1).isSome = true) :
    Returned 1 shellFrame (handledKernel r8) (returnedKernel r8) where
  exist := by
    rw [handledKernel, Kernel.setRegisters_exist]
    decide +kernel
  returned := by
    obtain ⟨k', eq⟩ := Option.isSome_iff_exists.mp h
    rw [returnedKernel, eq]
    rfl
  restored := by
    have r12 : (handlingKernel.taskManager 1).savedRegisters.r12 = shellFrame := by decide +kernel
    rw [handledKernel, Kernel.setRegisters_savedRegisters]
    dsimp only
    exact r12
  own _ := by
    have cr3 : handlingKernel.mem.paging.cr3 = 0x1000 := by decide +kernel
    have base : (handlingKernel.taskManager 1).basePML4 = 0x1000 := by decide +kernel
    rw [handledKernel, Kernel.setRegisters_basePML4, Kernel.setRegisters_mem, cr3, base]

theorem signalReturn_restores_shell :
    (∀ c : U64, c.toNat < userEnd →
        (listeningKernel.taskManager 1).savedRegisters.rsp.toNat ≤ c.toNat →
          loadByte (taskMemory handlingKernel 1) c = loadByte (taskMemory listeningKernel 1) c) ∧
      (programRegisters ((returnedKernel 0).taskManager 1).savedRegisters =
          programRegisters (listeningKernel.taskManager 1).savedRegisters ↔
        ((handledKernel 0).taskManager 1).savedRegisters.r8 =
          (listeningKernel.taskManager 1).savedRegisters.r8) :=
  signalReturn_restores_iff shell_delivered (shell_handled 0)
    (shell_returned 0 (by decide +kernel))

/-- A handler that changes `r8` changes it for the program it interrupted. -/
theorem r8_not_restored : ¬∀ (pid : Nat) (frame : U64) (k k₁ k₂ k₃ : Kernel),
    Delivered pid frame k k₁ → Handling pid frame k₁ k₂ → Returned pid frame k₂ k₃ →
      (∀ c : U64, c.toNat < userEnd → (k.taskManager pid).savedRegisters.rsp.toNat ≤ c.toNat →
        loadByte (taskMemory k₁ pid) c = loadByte (taskMemory k pid) c) ∧
      programRegisters (k₃.taskManager pid).savedRegisters =
        programRegisters (k.taskManager pid).savedRegisters := by
  intro claimed
  have returned := shell_returned 1 (by decide +kernel)
  have restored := (claimed _ _ _ _ _ _ shell_delivered (shell_handled 1) returned).2
  have held := shell_delivered.started.held.of_same
    (by rw [length_signalFrame]; exact shell_stack_private.1) (shell_handled 1).keeps
  rw [(returned.restores shell_stack_private.1 held).1] at restored
  have r8 : ((handledKernel 1).taskManager 1).savedRegisters.r8 = 1 := by
    rw [handledKernel, Kernel.setRegisters_savedRegisters]
  have before : (listeningKernel.taskManager 1).savedRegisters.r8 = 0 := by decide +kernel
  rw [r8] at restored
  simp [programRegisters, before] at restored

end ChudOS
