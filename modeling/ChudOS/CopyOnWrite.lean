import ChudOS.Library.Transition
import ChudOS.PageSharing

/-!
# Copy-on-write is an eager copy

`fork` shares the pages of the parent with the child, and the fault handler copies a page when it is
written to. In every run of forks, copy-on-write faults, task switches and stores each task reads
what it would read if `fork` had copied the pages at once. The frames that a fork shares must be
counted, which those are not that the fault handler has taken for a copy.

## Main definitions

* `Kernel.taskPages` — what each task reads on its user pages.
* `eagerCopy` — the meaning of forks and stores without sharing.
* `CopiesSound` — the invariant.
* `cowSystem` — the runs.
-/

namespace ChudOS

open Memory Transition

variable {k k' : Kernel} {m m' : Memory} {roots : Set Nat} {parent child n : Nat} {i : Interrupt}
  {frame : InterruptRegisters}

/-! ## What the tasks see -/

/-- The contents of the user pages of all tasks. -/
abbrev TaskPages := Nat → Page → Option (Fin 512 → U64)

/-- What each task reads on its user pages. -/
noncomputable def Kernel.taskPages (k : Kernel) : TaskPages := fun t page =>
  if (k.taskManager t).exist then k.mem.userPages (spaces k) (k.root t, page) else none

/-- What is done to user pages. -/
inductive PageAccess
  | fork (parent child : Nat) (pages : List Page)
  | store (task : Nat) (page : Page) (word : Fin 512) (value : U64)
  | internal

/-- The meaning of an access without sharing: `fork` copies the pages at once, and every task writes
to its own. -/
def eagerCopy (s : TaskPages) : PageAccess → TaskPages
  | .fork parent child pages =>
    Function.update s child fun page => if page ∈ pages then s parent page else none
  | .store task page word value => Function.update s task <|
    Function.update (s task) page ((s task page).map fun w => Function.update w word value)
  | .internal => s

/-- The address spaces are separate, and the user pages share their frames soundly. -/
structure CopiesSound (k : Kernel) : Prop where
  separate : SeparateSpaces k
  pages : PagesSound k.mem (spaces k)

/-- What `fork` must find on the pages it shares: user pages whose frames are counted, and no count
about to overflow. -/
structure ForkCounts (k : Kernel) : Prop where
  user : ∀ v ∈ sharedPages (k.taskManager k.curPid).memoryData, UserPath (pathOf v)
  sharable : ∀ v ∈ sharedPages (k.taskManager k.curPid).memoryData, ∀ f,
    k.mem.userFrame (spaces k) (k.root k.curPid, pageOf v) = some f → MayShare k.mem f
  room : ∀ f, (k.mem.physFrames f).refcount.toNat +
    (sharedPages (k.taskManager k.curPid).memoryData).length < 2 ^ 32

/-- Forks, copy-on-write faults, task switches, and the stores of programs to pages that the CPU lets
them write. -/
inductive CowStep : Kernel → PageAccess → Kernel → Prop
  | fork {k : Kernel} {i : Interrupt} {k' : Kernel} {frame : InterruptRegisters} :
      i.cause = .syscall → i.frame.rax = 4 → k.curPid ≠ 0 → ForkReady k → ForkCounts k →
      handleInterrupt k i = some (k', frame) →
      CowStep k (.fork k.curPid (findFreePID k)
        ((sharedPages (k.taskManager k.curPid).memoryData).map pageOf)) k'
  | fault {k : Kernel} {i : Interrupt} {k' : Kernel} {frame : InterruptRegisters} :
      CowFault k i → UserPath (pathOf i.frame.cr2) → k.mem.HasFree 1 →
      handleInterrupt k i = some (k', frame) → CowStep k .internal k'
  | timer {k : Kernel} {i : Interrupt} {k' : Kernel} {frame : InterruptRegisters} :
      i.cause = .timer → (k.taskManager k.curPid).processState ≠ .kill →
      handleInterrupt k i = some (k', frame) → CowStep k .internal k'
  | store {k : Kernel} {page : Page} {f : Nat} (word : Fin 512) (value : U64) :
      UserPath page.1 → Writable (k.userEntry k.curPid page) →
      (k.userEntry k.curPid page).bind link = some f →
      CowStep k (.store k.curPid page word value)
        { k with mem := k.mem.setEntry (f, word.val) value }

def cowSystem : LTS Kernel PageAccess where
  init := CopiesSound
  step := CowStep

theorem SameTasks.taskPages (h : SameTasks k k')
    (pages : k'.mem.userPages (ChudOS.spaces k) = k.mem.userPages (ChudOS.spaces k)) :
    k'.taskPages = k.taskPages := by
  funext t page
  rw [Kernel.taskPages, Kernel.taskPages, h.exist, h.root, h.spaces, pages]

theorem CopiesSound.of_same (sound : CopiesSound k) (h : SameTasks k k')
    (running : (k'.taskManager k'.curPid).exist = true) (pages : PagesSound k'.mem (spaces k)) :
    CopiesSound k' where
  separate := h.separate sound.separate pages.forest running
  pages := h.spaces ▸ pages

/-! ## `fork` -/

/-- The new address space has no user pages. -/
theorem NewSpace.pages (h : PagesSound m roots) (new : NewSpace roots m m' n) :
    PagesSound m' (insert n roots) ∧
      (∀ x, m'.userFrame (insert n roots) x = m.userFrame roots x) ∧
      ∀ x f, m.userFrame roots x = some f → m'.tables f = m.tables f := by
  have notRoot : n ∉ roots := fun hn =>
    h.forest.ne_free new.free ⟨n, hn, [], by simp, RadixTree.tableAt_nil⟩ rfl
  have words (x : Nat × Page) := userFrame_of_words (x := x) new.keeps.word
  have places (x : Nat × Page) : m'.userFrame (insert n roots) x = m.userFrame roots x ∧
      (m'.userWritable (insert n roots) x → m.userWritable roots x) := by
    by_cases place : x.1 ∈ insert n roots ∧ UserPath x.2.1
    · obtain isNew | old := place.1
      · have empty : m'.wordAt x.1 x.2.1 x.2.2 = none := by
          rw [isNew]
          exact new.empty x.2.1 place.2 x.2.2
        rw [userFrame_of_place place, userFrame_of_not fun at_x => notRoot (isNew ▸ at_x.1),
          userWritable, empty]
        exact ⟨rfl, fun may => absurd may.2.present present_none⟩
      · rw [← (words x).1, userFrame_of_place place, userFrame_of_place ⟨old, place.2⟩]
        exact ⟨rfl, fun may => (words x).2 ⟨⟨old, place.2⟩, may.2⟩⟩
    · have before : ¬(x.1 ∈ roots ∧ UserPath x.2.1) := fun at_x =>
        place ⟨Set.mem_insert_of_mem n at_x.1, at_x.2⟩
      rw [userFrame_of_not place, userFrame_of_not before]
      exact ⟨rfl, fun may => absurd may.1 place⟩
  refine ⟨⟨new.forest, ?_, fun x f hx => ?_⟩, fun x => (places x).1, fun x f hx => ?_⟩
  · apply h.sound.restrict (fun x => (places x).1) (fun x may => .inl ((places x).2 may))
    intro f
    exact (congrArg BitVec.toNat (new.keeps.refcount f)).ge
  · rw [(places x).1] at hx
    obtain ⟨used, data⟩ := h.data x f hx
    refine ⟨new.keeps.marked used, fun table => ?_⟩
    obtain old | free := new.fresh f table
    · exact data old
    · exact free.not_marked used
  · obtain ⟨used, data⟩ := h.data x f hx
    exact funext (new.keeps.data f used data)

theorem PagesShared.userPages {ps : List Page} (h : PagesShared roots parent child ps m m')
    (x : Nat × Page) : m'.userPages roots x =
      if x.1 = child ∧ x.2 ∈ ps then m.userPages roots (parent, x.2) else m.userPages roots x := by
  have seen {o : Option Nat} {y : Nat × Page} (eq : o = m.userFrame roots y) :
      o.map m'.tables = m.userPages roots y := by
    subst eq
    show _ = (m.userFrame roots y).map m.tables
    cases shown : m.userFrame roots y with
    | none => rfl
    | some f => rw [Option.map_some, Option.map_some, h.contents y f shown]
  show (m'.userFrame roots x).map m'.tables = _
  rw [h.frame]
  split_ifs
  · exact seen rfl
  · exact seen rfl

/-- The pages that all tasks see after `fork`. -/
theorem ForkStages.copies {k₂ k₃ : Kernel} {slot : Nat} (s : ForkStages k k₂ k₃ k' slot)
    (sound : CopiesSound k) (counts : ForkCounts k) :
    PagesSound k'.mem (spaces k') ∧ ∀ x, k'.mem.userPages (spaces k') x =
      if x.1 = k'.root slot ∧ x.2 ∈ (sharedPages (k.taskManager k.curPid).memoryData).map pageOf then
        k.mem.userPages (spaces k) (k.root k.curPid, x.2)
      else k.mem.userPages (spaces k) x := by
  have sep := sound.separate
  have unused := s.unused sep
  obtain ⟨sound₂, frame₂, contents₂⟩ := NewSpace.pages sound.pages s.space
  rw [spaces_add s.fresh s.exist s.others]
  obtain ⟨roots, hroots⟩ : ∃ roots, insert (k'.root slot) (spaces k) = roots := ⟨_, rfl⟩
  rw [hroots] at sound₂ frame₂ ⊢
  have parentIn : k.root k.curPid ∈ roots :=
    hroots ▸ Set.mem_insert_of_mem _ (mem_spaces sep.running)
  have childIn : k'.root slot ∈ roots := hroots ▸ Set.mem_insert _ _
  have pages₂ : k₂.mem.userPages roots = k.mem.userPages (spaces k) :=
    FrameSharing.Sharing.view_congr frame₂ contents₂
  have shareable : ShareReady roots (k.root k.curPid) (k'.root slot)
      (sharedPages (k.taskManager k.curPid).memoryData) k₂.mem := by
    have refcount := s.space.keeps.refcount
    refine ⟨sound₂, counts.user, fun v hv f hf => ?_, fun f => ?_, fun p => .inl ?_⟩
    · rw [frame₂] at hf
      obtain ⟨counted, userOwned⟩ := counts.sharable v hv f hf
      refine ⟨by rwa [refcount], ?_⟩
      obtain same | ⟨free, -⟩ := s.space.keeps.flags f
      · rwa [same]
      · exact absurd (sound.pages.data _ f hf).1 free.not_marked
    · rw [refcount]
      exact counts.room f
    · rw [frame₂]
      exact userFrame_of_not fun place => unused place.1
  obtain ⟨loops, free⟩ := shareRegions_shared (s.apart sep) s.parentRoot s.childRoot parentIn childIn
    s.regions shareable s.frames s.loops
  obtain ⟨b, m, a, keeps, final⟩ := s.stack roots loops.sound.forest parentIn free
  have sound₃ : PagesSound (memSetCr3 k₃.mem b) roots :=
    ⟨loops.sound.forest.of_frames rfl rfl loops.sound.forest.marked, loops.sound.sound,
      loops.sound.data⟩
  obtain ⟨sound₄, same₄⟩ := sound₃.keepsUser keeps
  rw [final]
  refine ⟨⟨sound₄.forest.of_frames rfl rfl sound₄.forest.marked, sound₄.sound, sound₄.data⟩,
    fun x => ?_⟩
  have shown : (memSetCr3 m a).userPages roots = k₃.mem.userPages roots := same₄.userPages
  rw [shown, loops.userPages, pages₂]

theorem syscallFork_copies {regs : InterruptRegisters} {r : SyscallResult} (sound : CopiesSound k)
    (current : AddressSpaceCurrent k) (user : k.curPid ≠ 0) (ready : ForkReady k)
    (counts : ForkCounts k) (h : syscallFork k regs = some r) :
    CopiesSound r.kernel ∧ r.kernel.taskPages = eagerCopy k.taskPages (.fork k.curPid (findFreePID k)
      ((sharedPages (k.taskManager k.curPid).memoryData).map pageOf)) := by
  have sep := sound.separate
  obtain ⟨k₂, k₃, stages⟩ := syscallFork_stages sep current user ready h
  obtain ⟨slot, hslot⟩ : ∃ slot, findFreePID k = slot := ⟨_, rfl⟩
  rw [hslot] at stages ⊢
  have unused := stages.unused sep
  have all := spaces_add stages.fresh stages.exist stages.others
  obtain ⟨sound', pages'⟩ := stages.copies sound counts
  have separate : SeparateSpaces r.kernel := sep.add stages.fresh stages.exist stages.others unused
    (all ▸ sound'.forest) stages.curPid
  refine ⟨⟨separate, sound'⟩, ?_⟩
  funext t page
  rw [Kernel.taskPages, eagerCopy]
  by_cases new : t = slot
  · subst new
    rw [if_pos stages.exist, pages', Function.update_self]
    by_cases listed : page ∈ (sharedPages (k.taskManager k.curPid).memoryData).map pageOf
    · rw [if_pos ⟨rfl, listed⟩, if_pos listed, Kernel.taskPages, if_pos sep.running]
    · rw [if_neg fun both => listed both.2, if_neg listed]
      show (k.mem.userFrame (spaces k) _).map _ = none
      rw [userFrame_of_not fun place => unused place.1]
      rfl
  · rw [Function.update_of_ne new, Kernel.taskPages, (stages.others t new).1]
    have root : r.kernel.root t = k.root t := by
      rw [Kernel.root, (stages.others t new).2]
      rfl
    rw [root]
    split_ifs with exist
    · rw [pages', if_neg]
      rintro ⟨clash, -⟩
      exact unused (clash ▸ mem_spaces exist)
    · rfl

theorem CopiesSound.entered (sound : CopiesSound k) (i : Interrupt) :
    CopiesSound (enteredSyscall k i) ∧ (enteredSyscall k i).taskPages = k.taskPages := by
  have same := enteredSyscall_sameTasks k i
  refine ⟨sound.of_same same ((same.exist _).trans sound.separate.running) ?_, same.taskPages rfl⟩
  exact ⟨sound.pages.forest.of_frames rfl rfl sound.pages.forest.marked, sound.pages.sound,
    sound.pages.data⟩

/-- The whole system call, from the state the program calls from. -/
theorem fork_copies (sound : CopiesSound k) (cause : i.cause = .syscall) (fork : i.frame.rax = 4)
    (user : k.curPid ≠ 0) (ready : ForkReady k) (counts : ForkCounts k)
    (h : handleInterrupt k i = some (k', frame)) :
    CopiesSound k' ∧ k'.taskPages = eagerCopy k.taskPages (.fork k.curPid (findFreePID k)
      ((sharedPages (k.taskManager k.curPid).memoryData).map pageOf)) := by
  have same := enteredSyscall_sameTasks k i
  obtain ⟨sound₁, pages₁⟩ := sound.entered i
  have regions : ((enteredSyscall k i).taskManager k.curPid).memoryData =
      (k.taskManager k.curPid).memoryData := enteredSyscall_field Task.memoryData (fun _ _ => rfl) _
  have idleRegions : (enteredSyscall k i).kernelTask = k.kernelTask :=
    enteredSyscall_field Task.memoryData (fun _ _ => rfl) 0
  have pids := enteredSyscall_freePID k i
  have current₁ : AddressSpaceCurrent (enteredSyscall k i) := by
    have base : (enteredSyscall k i).mem.paging.cr3 =
        ((k.setRegisters k.curPid i.frame).taskManager k.curPid).basePML4 := rfl
    exact ⟨base, base⟩
  have ready₁ : ForkReady (enteredSyscall k i) := by
    refine ⟨by rw [pids]; exact ready.slot, ?_, by rw [idleRegions]; exact ready.heap⟩
    change k.mem.HasFree (7 * (((enteredSyscall k i).taskManager k.curPid).memoryData.pageCount.toNat +
      ((enteredSyscall k i).taskManager k.curPid).memoryData.stackPageCount.toNat) + 30)
    rw [regions]
    exact ready.frames
  have counts₁ : ForkCounts (enteredSyscall k i) := by
    have shared : sharedPages ((enteredSyscall k i).taskManager
        (enteredSyscall k i).curPid).memoryData = sharedPages (k.taskManager k.curPid).memoryData :=
      congrArg sharedPages regions
    constructor
    · rw [shared]
      exact counts.user
    · rw [shared, same.root, same.spaces]
      intro v hv f hf
      obtain ⟨counted, userOwned⟩ := counts.sharable v hv f hf
      exact ⟨counted, userOwned⟩
    · rw [shared]
      exact counts.room
  simp only [handleInterrupt, cause, handleSyscall, Option.bind_eq_bind,
    Option.bind_eq_some_iff] at h
  obtain ⟨r, hr, h⟩ := h
  have dispatched : syscallFork (enteredSyscall k i) i.frame = some r := by
    have dispatched : dispatchSyscall i.fuel i.dev (enteredSyscall k i) i.frame = some r := hr
    simpa [dispatchSyscall, fork] using dispatched
  obtain ⟨sound₂, pages₂⟩ := syscallFork_copies sound₁ current₁ user ready₁ counts₁ dispatched
  rw [pids, pages₁] at pages₂
  obtain ⟨k₁, hk₁⟩ : ∃ k₁, r.kernel = k₁ := ⟨_, rfl⟩
  have done : KeepsSpaces k₁ k' ∧ k'.mem = k₁.mem := by
    rw [hk₁] at h
    split at h <;> cases h
    · exact ⟨.refl, rfl⟩
    · exact ⟨.setRegisters _ _, rfl⟩
  rw [hk₁] at sound₂ pages₂
  obtain ⟨keeps, mem⟩ := done
  have tasks : SameTasks k₁ k' := ⟨keeps.exist, keeps.basePML4⟩
  refine ⟨sound₂.of_same tasks ?_ (mem ▸ sound₂.pages), ?_⟩
  · rw [keeps.curPid, keeps.exist]
    exact sound₂.separate.running
  · rw [tasks.taskPages (by rw [mem]), pages₂]
    change eagerCopy k.taskPages (.fork k.curPid _ ((sharedPages
      ((enteredSyscall k i).taskManager k.curPid).memoryData).map pageOf)) = _
    rw [regions]

/-! ## Faults, switches and stores -/

/-- The fault handler between the entry of the interrupt and the copy. -/
theorem cowFault_cases (sound : CopiesSound k) (fault : CowFault k i)
    (h : handleInterrupt k i = some (k', frame)) :
    ∃ m₁ m₂ pt e, m₁ = memSetCr3 k.mem (k.taskManager k.curPid).basePML4 ∧
      PagesSound m₁ (spaces k) ∧
      m₁.tableAt (k.root k.curPid) (pathOf i.frame.cr2) = some pt ∧
      m₁.tables pt (leafIndex i.frame.cr2) = e ∧ e.getLsbD 0 = true ∧
      resolveCoW m₁ (pt, (leafIndex i.frame.cr2).val) (i.frame.cr2 &&& ~~~0xFFF) = some m₂ ∧
      k' = { k.setRegisters k.curPid i.frame with mem := m₂ } := by
  obtain ⟨cause, near, user, e, word, present, -, marked⟩ := fault
  have rootIn := mem_spaces sound.separate.running
  obtain ⟨m₁, hm₁⟩ : ∃ m₁, memSetCr3 k.mem (k.taskManager k.curPid).basePML4 = m₁ := ⟨_, rfl⟩
  have sound₁ : PagesSound m₁ (spaces k) := by
    rw [← hm₁]
    exact ⟨sound.pages.forest.of_frames rfl rfl sound.pages.forest.marked, sound.pages.sound,
      sound.pages.data⟩
  have current₁ : frameOf m₁.paging.pml4Physical = k.root k.curPid := hm₁ ▸ rfl
  have word₁ : m₁.wordAt (k.root k.curPid) (pathOf i.frame.cr2) (leafIndex i.frame.cr2) = some e := by
    rw [← hm₁]
    exact word
  rw [Memory.wordAt_eq, Option.map_eq_some_iff] at word₁
  obtain ⟨pt, table, entry⟩ := word₁
  have walk := walk_present (v := i.frame.cr2 &&& ~~~0xFFF) sound₁.forest.trees (current₁ ▸ rootIn)
    (by rw [current₁, pathOf_page]; exact table)
  simp only [handleInterrupt, cause] at h
  unfold handlePageFault at h
  dsimp only at h
  rw [Kernel.setRegisters_memoryData, near, if_neg Bool.false_ne_true, if_pos user] at h
  simp only [Kernel.setCr3, Kernel.setRegisters_mem, Kernel.setRegisters_basePML4, hm₁, walk] at h
  have slot : m₁.entry (pt, (leafIndex (i.frame.cr2 &&& ~~~0xFFF)).val) = e := by
    rw [leafIndex_page]
    exact entry
  rw [slot, if_neg marked] at h
  simp only [Option.bind_eq_bind, Option.bind_eq_some_iff] at h
  obtain ⟨m₂, resolved, h⟩ := h
  cases h
  rw [leafIndex_page] at resolved
  exact ⟨m₁, m₂, pt, e, hm₁.symm, sound₁, table, entry, present, resolved, rfl⟩

/-- A copy-on-write fault is not seen on any page, and the page may be written afterwards. -/
theorem cowFault_unseen (sound : CopiesSound k) (fault : CowFault k i)
    (user : UserPath (pathOf i.frame.cr2)) (free : k.mem.HasFree 1)
    (h : handleInterrupt k i = some (k', frame)) :
    CopiesSound k' ∧ k'.taskPages = k.taskPages ∧
      Writable (k'.userEntry k.curPid (pageOf i.frame.cr2)) := by
  obtain ⟨m₁, m₂, pt, e, hm₁, sound₁, table, entry, present, resolved, rfl⟩ :=
    cowFault_cases sound fault h
  have selected : frameOf m₁.paging.cr3 = k.root k.curPid := by
    rw [hm₁]
    rfl
  have free₁ : m₁.HasFree 1 := by
    rw [hm₁]
    exact free
  have path := pathOf_page i.frame.cr2
  have leaf := leafIndex_page i.frame.cr2
  rw [← leaf] at resolved entry
  rw [← path] at table user
  obtain ⟨sound₂, pages, writable⟩ := resolveCoW_pages sound₁ (mem_spaces sound.separate.running)
    table user (entry.symm ▸ link_isSome_of_present present) selected free₁ resolved
  have same : SameTasks k { k.setRegisters k.curPid i.frame with mem := m₂ } :=
    ⟨fun t => k.setRegisters_exist _ _ t, fun t => k.setRegisters_basePML4 _ _ t⟩
  refine ⟨sound.of_same same ?_ sound₂, same.taskPages (pages.trans ?_), ?_⟩
  · exact (k.setRegisters_exist _ _ _).trans sound.separate.running
  · rw [hm₁]
    rfl
  · have may := writable.2
    rw [Kernel.userEntry, same.root]
    change Writable (m₂.wordAt (k.root k.curPid) (pathOf (i.frame.cr2 &&& ~~~0xFFF))
      (leafIndex (i.frame.cr2 &&& ~~~0xFFF))) at may
    rw [path, leaf] at may
    exact may

/-- A task switch leaves the contents of memory. -/
theorem timer_ram {fuel : Nat} (alive : (k.taskManager k.curPid).processState ≠ .kill)
    (h : timerInterrupt fuel k i.frame = some (k', frame)) : k'.mem.ram = k.mem.ram := by
  unfold timerInterrupt at h
  dsimp only at h
  split at h
  · cases h
    rfl
  split at h
  · have kept : ((k.setRegisters k.curPid i.frame).taskManager k.curPid).processState ≠ .kill := by
      rw [Kernel.setRegisters, Kernel.setTask_self]
      exact alive
    have retired (u : U8) : retireKilled fuel ((k.setRegisters k.curPid i.frame).setTask k.curPid
        { (k.setRegisters k.curPid i.frame).taskManager k.curPid with usedTicks := u }) k.curPid =
        some ((k.setRegisters k.curPid i.frame).setTask k.curPid
          { (k.setRegisters k.curPid i.frame).taskManager k.curPid with usedTicks := u }) := by
      unfold retireKilled
      rw [Kernel.setTask_self, if_neg kept]
    rw [retired] at h
    simp only [Option.bind_eq_bind, Option.bind_some, Option.some.injEq] at h
    have switched := congrArg (fun r => r.1.mem.ram) h
    exact switched.symm
  · cases h
    rfl

theorem timer_unseen (sound : CopiesSound k) (cause : i.cause = .timer)
    (alive : (k.taskManager k.curPid).processState ≠ .kill)
    (h : handleInterrupt k i = some (k', frame)) :
    CopiesSound k' ∧ k'.taskPages = k.taskPages := by
  simp only [handleInterrupt, cause] at h
  have undisturbed := timer_spacesUndisturbed sound.separate alive h
  have ram := timer_ram alive h
  obtain ⟨pages, same⟩ := sound.pages.of_tables undisturbed.tables undisturbed.total undisturbed.frames
  refine ⟨sound.of_same undisturbed.tasks undisturbed.running pages, undisturbed.tasks.taskPages ?_⟩
  rw [Memory.userPages, Memory.userPages, same]
  unfold Memory.tables
  rw [ram]

/-- A store is seen on the page of the task that makes it, and nowhere else. -/
theorem store_seen {page : Page} {f : Nat} (sound : CopiesSound k) (word : Fin 512) (value : U64)
    (user : UserPath page.1) (may : Writable (k.userEntry k.curPid page))
    (shown : (k.userEntry k.curPid page).bind link = some f) :
    CopiesSound { k with mem := k.mem.setEntry (f, word.val) value } ∧
      Kernel.taskPages { k with mem := k.mem.setEntry (f, word.val) value } =
        eagerCopy k.taskPages (.store k.curPid page word value) := by
  have running := sound.separate.running
  have place : k.root k.curPid ∈ spaces k ∧ UserPath page.1 := ⟨mem_spaces running, user⟩
  have here : k.mem.userFrame (spaces k) (k.root k.curPid, page) = some f := by
    rw [userFrame_of_place place]
    exact shown
  have data := (sound.pages.data _ f here).2
  have written : (k.mem.setEntry (f, word.val) value).tables =
      Function.update k.mem.tables f (Function.update (k.mem.tables f) word value) := by
    rw [tables_setEntry]
    rfl
  have outside (t : Nat) (ht : IsTable k.mem (spaces k) t) :
      (k.mem.setEntry (f, word.val) value).tables t = k.mem.tables t := by
    rw [written, Function.update_of_ne]
    rintro rfl
    exact data ht
  obtain ⟨pages, same⟩ := sound.pages.of_tables outside rfl rfl
  refine ⟨sound.of_same ⟨fun _ => rfl, fun _ => rfl⟩ running pages, ?_⟩
  have seen : (k.mem.setEntry (f, word.val) value).userPages (spaces k) =
      Function.update (k.mem.userPages (spaces k)) (k.root k.curPid, page)
        (some (Function.update (k.mem.tables f) word value)) := by
    rw [Memory.userPages, same, written]
    exact sound.pages.sound.view_write here ⟨place, may⟩ _
  have before : k.taskPages k.curPid page = some (k.mem.tables f) := by
    rw [Kernel.taskPages, if_pos running]
    show (k.mem.userFrame (spaces k) (k.root k.curPid, page)).map _ = _
    rw [here]
    rfl
  funext t p
  rw [eagerCopy, before, Option.map_some]
  show (if (k.taskManager t).exist then (k.mem.setEntry (f, word.val) value).userPages (spaces k)
    (k.root t, p) else none) = _
  rw [seen]
  by_cases own : t = k.curPid
  · subst own
    rw [if_pos running, Function.update_self]
    by_cases at_page : p = page
    · subst at_page
      rw [Function.update_self, Function.update_self]
    · rw [Function.update_of_ne at_page, Function.update_of_ne fun eq => at_page (Prod.mk.inj eq).2,
        Kernel.taskPages, if_pos running]
  · rw [Function.update_of_ne own, Kernel.taskPages]
    split_ifs with exist
    · rw [Function.update_of_ne]
      intro eq
      exact own (sound.separate.own t k.curPid exist running (Prod.mk.inj eq).1)
    · rfl

/-! ## Runs -/

theorem cowStep_copies {access : PageAccess} (sound : CopiesSound k) (h : CowStep k access k') :
    CopiesSound k' ∧ k'.taskPages = eagerCopy k.taskPages access := by
  cases h with
  | fork cause fork user ready counts handled =>
    exact fork_copies sound cause fork user ready counts handled
  | fault fault user free handled =>
    obtain ⟨sound', pages, -⟩ := cowFault_unseen sound fault user free handled
    exact ⟨sound', pages⟩
  | timer cause alive handled => exact timer_unseen sound cause alive handled
  | store word value user may shown => exact store_seen sound word value user may shown

/-- Copy-on-write is an eager copy: in every run the tasks read what they would read if `fork`
copied the pages and nothing was shared. -/
theorem cow_eager_copy {accesses : List PageAccess} (sound : CopiesSound k)
    (run : Run cowSystem k accesses k') :
    k'.taskPages = accesses.foldl eagerCopy k.taskPages := by
  induction run with
  | nil => rfl
  | cons step _ ih =>
    obtain ⟨sound', pages⟩ := cowStep_copies sound step
    rw [ih sound', pages]
    rfl

/-! ## The program with one page of code and one of stack -/

/-- The user pages of an address space that are mapped, with the frames they show. -/
def Memory.shownPages (m : Memory) (r : Nat) : List (Page × Nat) :=
  ((m.reached r).filter fun a => a.1.length = 3 ∧ a.1.head?.elim 0 Fin.val < 256).flatMap fun a =>
    (List.finRange 512).filterMap fun j => (link (m.tables a.2 j)).map fun f => ((a.1, j), f)

/-- The frames that user pages show can be read off the lists. -/
theorem userFrame_listed {rs : List Nat} {x : Nat × Page} {f : Nat}
    (h : m.userFrame {r | r ∈ rs} x = some f) : x.1 ∈ rs ∧ (x.2, f) ∈ m.shownPages x.1 := by
  obtain ⟨root, length, lower⟩ := userFrame_place h
  rw [userFrame_of_place ⟨root, length, lower⟩, Memory.wordAt_eq, Option.bind_map,
    Option.bind_eq_some_iff] at h
  obtain ⟨t, table, shown⟩ := h
  change link (m.tables t x.2.2) = some f at shown
  have low : x.2.1.head?.elim 0 Fin.val < 256 := by
    cases head : x.2.1 with
    | nil => exact Nat.zero_lt_succ 255
    | cons i q => exact Nat.lt_of_not_le (lower i q head)
  refine ⟨root, ?_⟩
  simp only [Memory.shownPages, List.mem_flatMap, List.mem_filter, List.mem_filterMap,
    decide_eq_true_eq, Option.map_eq_some_iff]
  exact ⟨(x.2.1, t), ⟨RadixTree.mem_reached List.mem_finRange length.le table, length, low⟩,
    x.2.2, List.mem_finRange _, f, shown, rfl⟩

/-- The two user pages: code in frame 9, stack in frame 12. -/
theorem pagesKernel_userFrame {x : Nat × Page} {f : Nat}
    (h : (pagesKernel codePage).mem.userFrame (spaces (pagesKernel codePage)) x = some f) :
    x = (5, pageOf 0x400000) ∧ f = 9 ∨ x = (5, pageOf stackBase) ∧ f = 12 := by
  have idle : (pagesKernel codePage).mem.shownPages 1 = [] := by decide +kernel
  have shell : (pagesKernel codePage).mem.shownPages 5 =
      [(pageOf 0x400000, 9), (pageOf stackBase, 12)] := by decide +kernel
  rw [pagesKernel_spaces] at h
  obtain ⟨root, listed⟩ := userFrame_listed h
  obtain ⟨r, p⟩ := x
  obtain rfl | rfl : r = 1 ∨ r = 5 := by simpa using root
  · rw [idle] at listed
    cases listed
  · rw [shell] at listed
    simpa using listed

theorem pagesKernel_notTable {f : Nat} (h : f = 9 ∨ f = 12) :
    ¬IsTable (pagesKernel codePage).mem (spaces (pagesKernel codePage)) f := by
  have all : ∀ r ∈ [1, 5], ∀ a ∈ (pagesKernel codePage).mem.reached r, a.2 ≠ 9 ∧ a.2 ≠ 12 := by
    decide +kernel
  rw [pagesKernel_spaces]
  rintro ⟨r, hr, p, hp, table⟩
  obtain ⟨nine, twelve⟩ := all r hr _ (RadixTree.mem_reached List.mem_finRange hp table)
  exact h.elim nine twelve

theorem pagesKernel_sound : CopiesSound (pagesKernel codePage) := by
  have apart : ((5, pageOf 0x400000) : Nat × Page) ≠ (5, pageOf stackBase) := by decide
  have only {x y : Nat × Page} {f : Nat}
      (hx : (pagesKernel codePage).mem.userFrame (spaces (pagesKernel codePage)) x = some f)
      (hy : (pagesKernel codePage).mem.userFrame (spaces (pagesKernel codePage)) y = some f) :
      y = x := by
    obtain ⟨rfl, rfl⟩ | ⟨rfl, rfl⟩ := pagesKernel_userFrame hx
    · obtain ⟨rfl, -⟩ | ⟨-, clash⟩ := pagesKernel_userFrame hy
      · rfl
      · exact absurd clash (by decide)
    · obtain ⟨-, clash⟩ | ⟨rfl, -⟩ := pagesKernel_userFrame hy
      · exact absurd clash (by decide)
      · rfl
  refine ⟨pagesKernel_separate _, (pagesKernel_separate _).forest, ⟨?_, ?_⟩, fun x f hx => ?_⟩
  · exact fun x y f _ hx hy => only hx hy
  · intro f
    apply le_trans (b := (1 : ℕ∞))
    · rw [Set.encard_le_one_iff]
      exact fun x y hx hy => only hy hx
    · exact Nat.cast_le.mpr (le_max_left 1 _)
  · have marks : ∀ f ∈ [9, 12], (pagesKernel codePage).mem.marked f = true := by decide +kernel
    obtain ⟨-, rfl⟩ | ⟨-, rfl⟩ := pagesKernel_userFrame hx
    · exact ⟨marks 9 (by decide), pagesKernel_notTable (.inl rfl)⟩
    · exact ⟨marks 12 (by decide), pagesKernel_notTable (.inr rfl)⟩

theorem pagesKernel_counts : ForkCounts (pagesKernel codePage) where
  user v hv := by
    have pages : sharedPages ((pagesKernel codePage).taskManager 1).memoryData =
        [0x400000, stackBase] := by decide +kernel
    have listed : v ∈ [0x400000, stackBase] := pages ▸ hv
    apply userPath_of_lt
    obtain rfl | rfl : v = 0x400000 ∨ v = stackBase := by simpa using listed
    · decide
    · decide
  sharable v _ f hf := by
    obtain ⟨-, rfl⟩ | ⟨-, rfl⟩ := pagesKernel_userFrame hf
    · exact ⟨by decide, by decide⟩
    · exact ⟨by decide, by decide⟩
  room f := by
    have pages : (sharedPages ((pagesKernel codePage).taskManager 1).memoryData).length = 2 := by
      decide +kernel
    have few : ((pagesKernel codePage).mem.physFrames f).refcount.toNat ≤ 1 := by
      show (if f = 9 ∨ f = 12 then (⟨1, 1⟩ : PhysicalFrame)
        else if f < 13 then ⟨0, 0b101⟩ else ⟨0, 0⟩).refcount.toNat ≤ 1
      split_ifs <;> decide
    show _ + (sharedPages ((pagesKernel codePage).taskManager 1).memoryData).length < _
    omega

/-- The kernel after the parent has written to the first quadword of its page of code. -/
def pagesWritten (value : U64) : Kernel :=
  { pagesStored codePage with mem := (pagesStored codePage).mem.setEntry (24, 0) value }

/-- After the fork the parent writes to its page: the child still reads what was there. -/
theorem cow_eager_copy_code :
    (pagesWritten 7).taskPages = [.fork 1 2 [pageOf 0x400000, pageOf stackBase],
      PageAccess.internal, .store 1 (pageOf 0x400000) 0 7].foldl eagerCopy
        (pagesKernel codePage).taskPages := by
  have current : (pagesForked codePage).curPid = 1 := by decide +kernel
  have running : (pagesStored codePage).curPid = 1 := by decide +kernel
  have fork := CowStep.fork (k := pagesKernel codePage) (i := forkCall) rfl rfl Nat.one_ne_zero
    (pagesKernel_ready _) pagesKernel_counts (handled_answer (by decide +kernel))
  have free : ∀ f ∈ ({60} : Finset Nat), f < frameCount (pagesForked codePage).mem ∧
      (pagesForked codePage).mem.marked f = false := by decide +kernel
  have fault := CowStep.fault (codeStore_fault codePage 0x9205 (by decide +kernel) current
    (by decide +kernel) (by decide)) (userPath_of_lt (by decide))
    ⟨{60}, le_refl 1, free⟩ (handled_answer (by decide +kernel))
  have entry : (pagesStored codePage).userEntry (pagesStored codePage).curPid (pageOf 0x400000) =
      some 0x18007 := by
    rw [running]
    decide +kernel
  have store : CowStep (pagesStored codePage) (.store 1 (pageOf 0x400000) 0 7) (pagesWritten 7) := by
    have access : PageAccess.store (pagesStored codePage).curPid (pageOf 0x400000) 0 7 =
        .store 1 (pageOf 0x400000) 0 7 := by rw [running]
    rw [← access]
    exact CowStep.store 0 7 (userPath_of_lt (by decide)) (by rw [entry, writable_some]; decide)
      (by rw [entry]; decide)
  have slot : findFreePID (pagesKernel codePage) = 2 := by decide +kernel
  have pages : (sharedPages ((pagesKernel codePage).taskManager
      (pagesKernel codePage).curPid).memoryData).map pageOf =
      [pageOf 0x400000, pageOf stackBase] := by decide +kernel
  have run := cow_eager_copy pagesKernel_sound (.cons fork (.cons fault (.cons store (.nil _))))
  rw [slot, pages] at run
  exact run

end ChudOS
