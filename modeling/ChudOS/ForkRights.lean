import ChudOS.ContextSwitch
import ChudOS.ForkSharing
import ChudOS.MemoryCalls

/-!
# Rights under forks and copy-on-write

`fork` replaces the right to write by a mark, and the fault handler takes the mark for the right.
`fork` also forgets which pages must not be executed. The system here makes forks and
copy-on-write faults in any order, and records what was not permitted before each fork.

## Main definitions

* `CowFault` — a write to a present page that carries the copy-on-write mark.
* `Watched` — the kernel together with the pages that were read-only, or not executable, before a
  fork.
* `RightsHeld` — none of them has become writable, or executable.
-/

namespace ChudOS

open Memory Transition

variable {k k' : Kernel} {m m' : Memory} {roots : Set Nat} {root pt n : Nat} {v e a : U64}
  {i : Interrupt} {frame : InterruptRegisters}

/-! ## Resolving copy-on-write -/

theorem cowResolved_bits (e a : U64) :
    (cowResolved e a).getLsbD 0 = true ∧
      (cowResolved e a).getLsbD 63 = (a.getLsbD 63 || e.getLsbD 63) := by
  simp [cowResolved]

theorem executeDisable_low (e : U64) : pteFrame (e >>> 63 <<< 63) = 0 := by
  rw [pteFrame_eq, BitVec.toNat_shiftLeft, BitVec.toNat_ushiftRight, Nat.shiftRight_eq_div_pow,
    Nat.shiftLeft_eq]
  have := e.isLt
  omega

/-- The flags of the new entry stay out of its address. -/
theorem resolvedFlags_frame {x y mask : U16} (hx : x.toNat < 2 ^ 12) (hy : y.toNat < 2 ^ 12) :
    pteFrame (((x ||| y) &&& mask).setWidth 64) = 0 := by
  apply pteFrame_flags
  have both : (x ||| y).toNat < 2 ^ 12 := by
    rw [BitVec.toNat_or]
    exact Nat.or_lt_two_pow hx hy
  have masked : ((x ||| y) &&& mask).toNat ≤ (x ||| y).toNat := by
    rw [BitVec.toNat_and]
    exact Nat.and_le_left
  rw [BitVec.toNat_setWidth]
  omega

theorem link_cowResolved (hn : n < 2 ^ 40) : link (cowResolved e (physOf n)) = some n := by
  have present := (cowResolved_bits e (physOf n)).1
  have low : ((e &&& 0xFFF).setWidth 16 : U16).toNat < 2 ^ 12 := by
    have mask : (e &&& 0xFFF).toNat ≤ 0xFFF := by
      rw [BitVec.toNat_and]
      exact Nat.and_le_right
    rw [BitVec.toNat_setWidth]
    omega
  rw [link_eq_some]
  constructor
  · intro absent
    rw [absent_iff.mp absent] at present
    cases present
  · unfold cowResolved
    dsimp only
    rw [pteFrame_or, pteFrame_or, pteFrame_physOf hn, executeDisable_low,
      resolvedFlags_frame low (by decide), Nat.or_zero, Nat.or_zero]

theorem physOf_high (hn : n < 2 ^ 40) : (physOf n).getLsbD 63 = false := by
  show (physOf n).toNat.testBit 63 = false
  apply Nat.testBit_lt_two_pow
  rw [physOf_toNat (by omega)]
  omega

/-- Giving up a share changes a count and the entry. -/
theorem giveUpShare_frames (m : Memory) (s : Slot) (f : Nat) :
    ((giveUpShare m s).physFrames f).flags = (m.physFrames f).flags := by
  simp only [giveUpShare, Memory.setEntry, Memory.setFrame, Function.update_apply]
  split_ifs with h
  · rw [h]
  · rfl

/-- Up to frames that are no page tables, resolving copy-on-write is one new entry. -/
theorem resolveCoW_tables (hm : Forest m roots) (hroot : root ∈ roots)
    (hpt : m.tableAt root (pathOf v) = some pt) (selected : frameOf m.paging.cr3 = root)
    (free : m.HasFree 1) (h : resolveCoW m (pt, (leafIndex v).val) v = some m') :
    ∃ a : U64, a.getLsbD 63 = false ∧ m'.totalMem = m.totalMem ∧
      (∀ f, m.marked f = true → m'.marked f = true) ∧
      ∀ f, IsTable m roots f → m'.tables f = (m.setEntry (pt, (leafIndex v).val)
        (cowResolved (m.tables pt (leafIndex v)) a)).tables f := by
  obtain ⟨e, he⟩ : ∃ e, m.tables pt (leafIndex v) = e := ⟨_, rfl⟩
  have entry : m.entry (pt, (leafIndex v).val) = e := he
  rw [he]
  unfold resolveCoW at h
  dsimp only at h
  rw [entry] at h
  split at h
  · cases h
    refine ⟨pteAddr e, ?_, rfl, fun f hf => hf, fun f _ => rfl⟩
    simp [pteAddr]
  -- The frame that takes the copy is free before the share is given up, and so no page table.
  obtain ⟨m₁, hm₁⟩ : ∃ m₁, giveUpShare m (pt, (leafIndex v).val) = m₁ := ⟨_, rfl⟩
  have ram₁ : m₁.ram = (m.setEntry (pt, (leafIndex v).val) (cowResolved e (pteAddr e))).ram := by
    rw [← hm₁, giveUpShare, entry]
    rfl
  have layout₁ : m₁.paging = m.paging ∧ m₁.totalMem = m.totalMem := hm₁ ▸ ⟨rfl, rfl⟩
  have marked₁ (f : Nat) : m₁.marked f = m.marked f := by
    rw [Memory.marked, ← hm₁, giveUpShare_frames]
    rfl
  have count₁ : frameCount m₁ = frameCount m := by rw [frameCount, layout₁.2]; rfl
  have free₁ : m₁.HasFree 1 := by
    obtain ⟨s, hs, all⟩ := free
    exact ⟨s, hs, fun f hf => ⟨count₁ ▸ (all f hf).1, (marked₁ f).trans (all f hf).2⟩⟩
  obtain ⟨unused, found⟩ := findNextFreePhysical_free (layout₁.2 ▸ hm.small) free₁
  obtain ⟨n, hn⟩ : ∃ n, frameOf (findNextFreePhysical m₁) = n := ⟨_, rfl⟩
  rw [hn] at unused found
  have freeFrame : m.Free n := ⟨count₁ ▸ unused.1, (marked₁ n).symm.trans unused.2⟩
  have bound := hm.free_lt freeFrame
  rw [hm₁] at h
  simp only [copyPage, Option.bind_eq_bind, Option.bind_eq_some_iff] at h
  obtain ⟨src, -, dst, target, h⟩ := h
  obtain ⟨m₂, hm₂⟩ : ∃ m₂, mapFresh m₁ (pt, (leafIndex v).val) e = m₂ := ⟨_, rfl⟩
  rw [hm₂] at target h
  have ram₂ : m₂.ram = (m.setEntry (pt, (leafIndex v).val) (cowResolved e (physOf n))).ram := by
    rw [← hm₂, mapFresh, found]
    show (m₁.setEntry _ _).ram = _
    simp only [Memory.setEntry, ram₁, Function.update_idem, Function.update_self]
  have toFresh : dst = n := by
    have word : m₂.wordAt root (pathOf v) (leafIndex v) = some (cowResolved e (physOf n)) := by
      have written := setEntry_word (d := leafIndex v)
        (x := cowResolved e (physOf n)) hm hroot (pathOf_length v) hpt
      unfold Memory.wordAt Memory.tables at written ⊢
      rw [ram₂]
      exact written
    have cr3 : frameOf m₂.paging.cr3 = root := by
      rw [← hm₂]
      show frameOf m₁.paging.cr3 = root
      rw [layout₁.1, selected]
    rw [translate_eq, cr3, word, Option.bind_some, link_cowResolved (by omega)] at target
    exact (Option.some.inj target).symm
  subst toFresh
  cases h
  refine ⟨physOf dst, physOf_high (by omega), ?_, fun f hf => ?_, fun f hf => ?_⟩
  · rw [← layout₁.2, ← hm₂]
    rfl
  · have used : ∀ x : U8, (x ||| 1) &&& 0b111 ≠ 0 := by decide
    rw [← hm₂]
    exact setFlags_marked (m := m₁) (used _) (.inl ((marked₁ f).trans hf))
  · have notFresh : f ≠ dst := hm.ne_free freeFrame hf
    funext j
    show Function.update m₂.ram dst _ f j = _
    rw [Function.update_of_ne notFresh, ram₂]
    rfl

/-! ## Copy-on-write faults -/

/-- The page of a virtual address: the path of its page table, and its index there. -/
abbrev Page := List (Fin 512) × Fin 512

def pageOf (v : U64) : Page := (pathOf v, leafIndex v)

/-- The entry of a page in the address space of a task. -/
def Kernel.userEntry (k : Kernel) (t : Nat) (page : Page) : Option U64 :=
  k.mem.wordAt (k.root t) page.1 page.2

/-- The CPU has refused a write to a present page of the current task, which carries the mark. The
handler does not take it for a stray access. -/
structure CowFault (k : Kernel) (i : Interrupt) : Prop where
  cause : i.cause = .pageFault
  near : faultKills (k.taskManager k.curPid).memoryData i.frame.cr2 = false
  user : i.frame.cr2 &&& ~~~0xFFF < virtualMemoryBarrier
  marked : ∃ e, k.userEntry k.curPid (pageOf i.frame.cr2) = some e ∧ e.getLsbD 0 = true ∧
    e.getLsbD 1 = false ∧ e &&& cowBit ≠ 0

/-- From `k` to `k'` the rights of user pages have not grown, but that the page `page` of the
current task may have become writable. -/
structure Resolved (k k' : Kernel) (page : Page) : Prop where
  tasks : SameTasks k k'
  curPid : k'.curPid = k.curPid
  separate : SeparateSpaces k'
  others : ∀ t p, (k.taskManager t).exist = true → UserPath p.1 → ¬(t = k.curPid ∧ p = page) →
    Narrows (k.userEntry t p) (k'.userEntry t p)
  executable : UserPath page.1 →
    (Executable (k'.userEntry k.curPid page) ↔ Executable (k.userEntry k.curPid page))

theorem cowFault_resolved (sep : SeparateSpaces k) (fault : CowFault k i) (free : k.mem.HasFree 1)
    (h : handleInterrupt k i = some (k', frame)) : Resolved k k' (pageOf i.frame.cr2) := by
  obtain ⟨cause, near, user, e, word, present, -, marked⟩ := fault
  have rootIn := mem_spaces sep.running
  obtain ⟨m₁, hm₁⟩ : ∃ m₁, memSetCr3 k.mem (k.taskManager k.curPid).basePML4 = m₁ := ⟨_, rfl⟩
  have forest₁ : Forest m₁ (spaces k) := hm₁ ▸ sep.forest.of_frames rfl rfl sep.forest.marked
  have current₁ : frameOf m₁.paging.pml4Physical = k.root k.curPid := hm₁ ▸ rfl
  have selected₁ : frameOf m₁.paging.cr3 = k.root k.curPid := hm₁ ▸ rfl
  have words₁ (r : Nat) (p : List (Fin 512)) (j : Fin 512) : m₁.wordAt r p j = k.mem.wordAt r p j :=
    hm₁ ▸ rfl
  have word₁ : m₁.wordAt (k.root k.curPid) (pathOf i.frame.cr2) (leafIndex i.frame.cr2) = some e :=
    (words₁ _ _ _).trans word
  rw [Memory.wordAt_eq, Option.map_eq_some_iff] at word₁
  obtain ⟨pt, table, entry⟩ := word₁
  have walk := walk_present (v := i.frame.cr2 &&& ~~~0xFFF) forest₁.trees (current₁ ▸ rootIn)
    (by rw [current₁, pathOf_page]; exact table)
  simp only [handleInterrupt, cause] at h
  unfold handlePageFault at h
  dsimp only at h
  rw [Kernel.setRegisters_memoryData, near, if_neg Bool.false_ne_true, if_pos user] at h
  simp only [Kernel.setCr3, Kernel.setRegisters_mem, Kernel.setRegisters_basePML4, hm₁, walk] at h
  have slot : m₁.entry (pt, (leafIndex (i.frame.cr2 &&& ~~~0xFFF)).val) = e := by
    rw [leafIndex_page]
    exact entry
  rw [slot, if_neg marked] at h
  simp only [Option.bind_eq_bind, Option.bind_eq_some_iff] at h
  obtain ⟨m₂, resolved, h⟩ := h
  cases h
  have free₁ : m₁.HasFree 1 := hm₁ ▸ free
  obtain ⟨a, high, total, marks, tables⟩ := resolveCoW_tables (v := i.frame.cr2 &&& ~~~0xFFF)
    forest₁ rootIn (by rw [pathOf_page]; exact table) selected₁ free₁ resolved
  rw [leafIndex_page, entry] at tables
  -- The entry is written first; the rest of the change lies outside the page tables.
  obtain ⟨m₃, hm₃⟩ : ∃ m₃, m₁.setEntry (pt, (leafIndex i.frame.cr2).val) (cowResolved e a) = m₃ :=
    ⟨_, rfl⟩
  rw [hm₃] at tables
  have forest₃ : Forest m₃ (spaces k) :=
    hm₃ ▸ setEntry_forest forest₁ rootIn (pathOf_length _) table
  have tables₃ : ∀ f, IsTable m₃ (spaces k) f → m₂.tables f = m₃.tables f := by
    intro f hf
    rw [← hm₃, setEntry_isTable forest₁.trees rootIn (pathOf_length _) table] at hf
    exact tables f hf
  have words {r : Nat} (hr : r ∈ spaces k) {p : List (Fin 512)} (hp : p.length ≤ 3) (j : Fin 512) :
      m₂.wordAt r p j = m₃.wordAt r p j := wordAt_of_tables tables₃ hr hp j
  have forest₂ : Forest m₂ (spaces k) := by
    apply forest₃.of_tables tables₃
    · rw [total, ← hm₃]
      rfl
    · intro t ht
      have marked₃ := forest₃.marked t ht
      rw [← hm₃] at marked₃
      exact marks t marked₃
  have same : SameTasks k { k.setRegisters k.curPid i.frame with mem := m₂ } :=
    ⟨fun t => k.setRegisters_exist _ _ t, fun t => k.setRegisters_basePML4 _ _ t⟩
  refine ⟨same, rfl, same.separate sep forest₂ ?_, fun t p ht hp away => ?_, fun hp => ?_⟩
  · exact (k.setRegisters_exist _ _ _).trans sep.running
  · have hr := mem_spaces ht
    rw [Kernel.userEntry, Kernel.userEntry, same.root, ← words₁]
    show Narrows _ (m₂.wordAt (k.root t) p.1 p.2)
    rw [words hr hp.1.le, ← hm₃]
    by_cases own : t = k.curPid
    · subst own
      rw [setEntry_word_of_ne forest₁ rootIn (pathOf_length _) table rootIn hp.1]
      · exact .refl
      · rintro ⟨path, index⟩
        exact away ⟨rfl, Prod.ext path index⟩
    · apply setEntry_others forest₁ rootIn table _ (k.root t) _ p.1 hp
      exact ⟨hr, fun eq => own (sep.own _ _ ht sep.running eq)⟩
  · have after : Kernel.userEntry { k.setRegisters k.curPid i.frame with mem := m₂ } k.curPid
        (pageOf i.frame.cr2) = some (cowResolved e a) := by
      rw [Kernel.userEntry, same.root]
      show m₂.wordAt (k.root k.curPid) (pathOf i.frame.cr2) (leafIndex i.frame.cr2) = _
      rw [words rootIn (pathOf_length _).le, ← hm₃]
      exact setEntry_word forest₁ rootIn (pathOf_length _) table
    obtain ⟨bit₀, bit₆₃⟩ := cowResolved_bits e a
    rw [word, after, executable_some, executable_some, bit₀, bit₆₃, high, Bool.false_or, present]

/-! ## Other steps -/

/-- From `k` to `k'` the page tables and the tasks have stayed. -/
structure SpacesUndisturbed (k k' : Kernel) : Prop where
  tasks : SameTasks k k'
  running : (k'.taskManager k'.curPid).exist = true
  total : k'.mem.totalMem = k.mem.totalMem
  frames : k'.mem.physFrames = k.mem.physFrames
  tables : ∀ f, IsTable k.mem (spaces k) f → k'.mem.tables f = k.mem.tables f

namespace SpacesUndisturbed

theorem separate (h : SpacesUndisturbed k k') (sep : SeparateSpaces k) : SeparateSpaces k' := by
  apply h.tasks.separate sep _ h.running
  apply sep.forest.of_tables h.tables h.total
  intro t ht
  rw [Memory.marked, h.frames]
  exact sep.forest.marked t ht

theorem userEntry (h : SpacesUndisturbed k k') {t : Nat} (ht : (k.taskManager t).exist = true) {p : Page}
    (hp : UserPath p.1) : k'.userEntry t p = k.userEntry t p := by
  rw [Kernel.userEntry, h.tasks.root, wordAt_of_tables h.tables (mem_spaces ht) hp.1.le]
  rfl

end SpacesUndisturbed

/-- The timer may switch to another task. -/
theorem timer_spacesUndisturbed {fuel : Nat} (sep : SeparateSpaces k)
    (alive : (k.taskManager k.curPid).processState ≠ .kill)
    (h : timerInterrupt fuel k i.frame = some (k', frame)) : SpacesUndisturbed k k' := by
  unfold timerInterrupt at h
  dsimp only at h
  split at h
  · cases h
    exact ⟨⟨fun _ => rfl, fun _ => rfl⟩, sep.running, rfl, rfl, fun _ _ => rfl⟩
  have saved : KeepsSpaces k (k.setRegisters k.curPid i.frame) := .setRegisters _ _
  split at h
  · have kept : ((k.setRegisters k.curPid i.frame).taskManager k.curPid).processState ≠ .kill := by
      rw [Kernel.setRegisters, Kernel.setTask_self]
      exact alive
    have retired (u : U8) : retireKilled fuel ((k.setRegisters k.curPid i.frame).setTask k.curPid
        { (k.setRegisters k.curPid i.frame).taskManager k.curPid with usedTicks := u }) k.curPid =
        some ((k.setRegisters k.curPid i.frame).setTask k.curPid
          { (k.setRegisters k.curPid i.frame).taskManager k.curPid with usedTicks := u }) := by
      unfold retireKilled
      rw [Kernel.setTask_self, if_neg kept]
    rw [retired] at h
    simp only [Option.bind_eq_bind, Option.bind_some, Option.some.injEq] at h
    obtain ⟨k₁, hk₁⟩ : ∃ k₁, (k.setRegisters k.curPid i.frame).setTask k.curPid
        { (k.setRegisters k.curPid i.frame).taskManager k.curPid with usedTicks := 0 } = k₁ := ⟨_, rfl⟩
    have ticked : KeepsSpaces k k₁ := hk₁ ▸ saved.trans (.setTask rfl rfl)
    have mem₁ : k₁.mem = k.mem := hk₁ ▸ rfl
    rw [hk₁] at h
    obtain rfl : (taskSwitch k₁ (findNextTask k₁ k.curPid) i.frame).1 = k' := congrArg Prod.fst h
    obtain ⟨next, hnext⟩ : ∃ next, findNextTask k₁ k.curPid = next := ⟨_, rfl⟩
    have found := findNextTask_spec k₁ k.curPid
    rw [hnext] at found ⊢
    have switched : KeepsSpaces k₁ (k₁.setRegisters k₁.curPid i.frame) := .setRegisters _ _
    refine ⟨⟨fun t => (switched.exist t).trans (ticked.exist t),
      fun t => (switched.basePML4 t).trans (ticked.basePML4 t)⟩, ?_, ?_, ?_, ?_⟩
    · rw [taskSwitch_exist]
      show (k₁.taskManager next).exist = true
      rcases found with rfl | ⟨-, exist⟩
      · exact (ticked.exist 0).trans sep.idle
      · exact exist
    · show k₁.mem.totalMem = _
      rw [mem₁]
    · show k₁.mem.physFrames = _
      rw [mem₁]
    · intro f _
      show k₁.mem.tables f = _
      rw [mem₁]
  · cases h
    have ticked : KeepsSpaces k ((k.setRegisters k.curPid i.frame).setTask k.curPid
        { (k.setRegisters k.curPid i.frame).taskManager k.curPid with
          usedTicks := ((k.setRegisters k.curPid i.frame).taskManager k.curPid).usedTicks + 1 }) :=
      saved.trans (.setTask rfl rfl)
    exact ⟨⟨ticked.exist, ticked.basePML4⟩, (ticked.exist _).trans sep.running, rfl, rfl,
      fun _ _ => rfl⟩

/-! ## Runs -/

/-- The kernel, the pages of tasks that were not writable before a fork of theirs or before the fork
they come from, the pages that were not executable then, and the fork just made, if any, by its
parent and its child. -/
structure Watched where
  kernel : Kernel
  readOnly : Set (Nat × Page)
  noExecute : Set (Nat × Page)
  justForked : Option (Nat × Nat)

/-- The user pages of the current task without the right `right`, for it and its child. -/
def withheld (k : Kernel) (right : Option U64 → Prop) : Set (Nat × Page) :=
  {x | (x.1 = k.curPid ∨ x.1 = findFreePID k) ∧ UserPath x.2.1 ∧
    Present (k.userEntry k.curPid x.2) ∧ ¬right (k.userEntry k.curPid x.2)}

/-- A step of a run of forks and copy-on-write faults, with task switches and the stores of the
programs between them. Nobody is killed in such a run. -/
inductive ForkStep : Watched → Event → Watched → Prop
  | fork {w : Watched} {i : Interrupt} {k' : Kernel} {frame : InterruptRegisters} :
      i.cause = .syscall → i.frame.rax = 4 → w.kernel.curPid ≠ 0 →
      handleInterrupt w.kernel i = some (k', frame) →
      ForkStep w (.interrupt i) ⟨k', w.readOnly ∪ withheld w.kernel Writable,
        w.noExecute ∪ withheld w.kernel Executable,
        some (w.kernel.curPid, findFreePID w.kernel)⟩
  | fault {w : Watched} {i : Interrupt} {k' : Kernel} {frame : InterruptRegisters} :
      CowFault w.kernel i → handleInterrupt w.kernel i = some (k', frame) →
      ForkStep w (.interrupt i) { w with kernel := k', justForked := none }
  | timer {w : Watched} {i : Interrupt} {k' : Kernel} {frame : InterruptRegisters} :
      i.cause = .timer → (w.kernel.taskManager w.kernel.curPid).processState ≠ .kill →
      handleInterrupt w.kernel i = some (k', frame) →
      ForkStep w (.interrupt i) { w with kernel := k', justForked := none }
  | user {w : Watched} (ram : Nat → Nat → U64) :
      (∀ f, IsTable w.kernel.mem (spaces w.kernel) f →
        Memory.tables { w.kernel.mem with ram := ram } f = w.kernel.mem.tables f) →
      ForkStep w (.user ram)
        { w with
          kernel := { w.kernel with mem := { w.kernel.mem with ram := ram } }
          justForked := none }

def forkSystem : LTS Watched Event where
  init w := SeparateSpaces w.kernel ∧ w.readOnly = ∅ ∧ w.noExecute = ∅ ∧ w.justForked = none
  step := ForkStep

/-- What was withheld before a fork still is, and the pages of a child can be executed just when its
parent's can. -/
structure RightsHeld (w : Watched) : Prop where
  readOnly : ∀ t p, (t, p) ∈ w.readOnly → ¬Writable (w.kernel.userEntry t p)
  noExecute : ∀ t p, (t, p) ∈ w.noExecute → ¬Executable (w.kernel.userEntry t p)
  inherited : ∀ parent child, w.justForked = some (parent, child) → ∀ p, UserPath p.1 →
    Present (w.kernel.userEntry child p) →
      (Executable (w.kernel.userEntry child p) ↔ Executable (w.kernel.userEntry parent p))

/-- The condition on a step: a fork finds room for a child and shares executable pages only, and no
copy-on-write fault is taken on a page that was not writable before a fork. -/
def KeepsRights (w : Watched) : Event → Prop
  | .interrupt i =>
    (i.cause = .syscall → ForkReady w.kernel ∧
      ∀ v ∈ sharedPages (w.kernel.taskManager w.kernel.curPid).memoryData,
        MappedExecutable w.kernel.mem (w.kernel.root w.kernel.curPid) v) ∧
    (i.cause = .pageFault → w.kernel.mem.HasFree 1 ∧
      (w.kernel.curPid, pageOf i.frame.cr2) ∉ w.readOnly)
  | .user _ => True

/-! ## Every step -/

theorem enteredSyscall_sameTasks (k : Kernel) (i : Interrupt) : SameTasks k (enteredSyscall k i) :=
  ⟨enteredSyscall_field Task.exist fun _ _ => rfl,
    enteredSyscall_field Task.basePML4 fun _ _ => rfl⟩

/-- The whole system call, from the state the program calls from. -/
theorem fork_forked (sep : SeparateSpaces k) (cause : i.cause = .syscall) (fork : i.frame.rax = 4)
    (user : k.curPid ≠ 0) (ready : ForkReady k)
    (executable : ∀ v ∈ sharedPages (k.taskManager k.curPid).memoryData,
      MappedExecutable k.mem (k.root k.curPid) v)
    (h : handleInterrupt k i = some (k', frame)) : Forked k k' (findFreePID k) := by
  have same := enteredSyscall_sameTasks k i
  have regions : ((enteredSyscall k i).taskManager k.curPid).memoryData =
      (k.taskManager k.curPid).memoryData := enteredSyscall_field Task.memoryData (fun _ _ => rfl) _
  have idleRegions : (enteredSyscall k i).kernelTask = k.kernelTask :=
    enteredSyscall_field Task.memoryData (fun _ _ => rfl) 0
  have pids := enteredSyscall_freePID k i
  have sep₁ : SeparateSpaces (enteredSyscall k i) := by
    apply same.separate sep (sep.forest.of_frames rfl rfl sep.forest.marked)
    exact (same.exist _).trans sep.running
  have current₁ : AddressSpaceCurrent (enteredSyscall k i) := by
    have base : (enteredSyscall k i).mem.paging.cr3 =
        ((k.setRegisters k.curPid i.frame).taskManager k.curPid).basePML4 := rfl
    exact ⟨base, base⟩
  have ready₁ : ForkReady (enteredSyscall k i) := by
    refine ⟨by rw [pids]; exact ready.slot, ?_, by rw [idleRegions]; exact ready.heap⟩
    change k.mem.HasFree (7 * (((enteredSyscall k i).taskManager k.curPid).memoryData.pageCount.toNat +
      ((enteredSyscall k i).taskManager k.curPid).memoryData.stackPageCount.toNat) + 30)
    rw [regions]
    exact ready.frames
  simp only [handleInterrupt, cause, handleSyscall, Option.bind_eq_bind,
    Option.bind_eq_some_iff] at h
  obtain ⟨r, hr, h⟩ := h
  have dispatched : syscallFork (enteredSyscall k i) i.frame = some r := by
    have dispatched : dispatchSyscall i.fuel i.dev (enteredSyscall k i) i.frame = some r := hr
    simpa [dispatchSyscall, fork] using dispatched
  have executable₁ : ∀ v ∈ sharedPages ((enteredSyscall k i).taskManager
      (enteredSyscall k i).curPid).memoryData, MappedExecutable (enteredSyscall k i).mem
        ((enteredSyscall k i).root (enteredSyscall k i).curPid) v := by
    intro v hv
    rw [same.root]
    apply executable v
    rw [← regions]
    exact hv
  have forked := syscallFork_forked sep₁ current₁ user ready₁ executable₁ dispatched
  rw [pids] at forked
  obtain ⟨k₁, hk₁⟩ : ∃ k₁, r.kernel = k₁ := ⟨_, rfl⟩
  have done : KeepsSpaces k₁ k' ∧ k'.mem = k₁.mem := by
    rw [hk₁] at h
    split at h <;> cases h
    · exact ⟨.refl, rfl⟩
    · exact ⟨.setRegisters _ _, rfl⟩
  rw [hk₁] at forked
  obtain ⟨keeps, mem⟩ := done
  have root (t : Nat) : k'.root t = k₁.root t := by rw [Kernel.root, keeps.basePML4]; rfl
  have tasks : SameTasks k₁ k' := ⟨keeps.exist, keeps.basePML4⟩
  refine ⟨(same.exist _).symm.trans forked.fresh, (keeps.exist _).trans forked.exist,
    fun t ht => ?_, ?_, ?_, ?_⟩
  · rw [keeps.exist, keeps.basePML4, (forked.others t ht).1, (forked.others t ht).2, same.exist,
      same.basePML4]
    exact ⟨rfl, rfl⟩
  · apply tasks.separate forked.separate (mem ▸ forked.separate.forest)
    rw [keeps.curPid, keeps.exist]
    exact forked.separate.running
  · rw [mem]
    have narrow := forked.narrow
    rw [same.spaces] at narrow
    exact narrow
  · rw [mem, root]
    have inherits := forked.inherits
    rw [same.root] at inherits
    exact inherits

/-- What is carried along a run besides the rights. -/
structure Watching (w : Watched) : Prop where
  held : RightsHeld w
  separate : SeparateSpaces w.kernel
  tracked : ∀ t p, (t, p) ∈ w.readOnly ∨ (t, p) ∈ w.noExecute →
    (w.kernel.taskManager t).exist = true ∧ UserPath p.1

/-- A step that is no fork, at most one page of which has become writable. -/
theorem Watching.next {w : Watched} (hw : Watching w) (page : Page)
    (tasks : SameTasks w.kernel k') (separate : SeparateSpaces k')
    (others : ∀ t p, (w.kernel.taskManager t).exist = true → UserPath p.1 →
      ¬(t = w.kernel.curPid ∧ p = page) → Narrows (w.kernel.userEntry t p) (k'.userEntry t p))
    (here : UserPath page.1 → (w.kernel.curPid, page) ∉ w.readOnly ∧
      (Executable (k'.userEntry w.kernel.curPid page) ↔
        Executable (w.kernel.userEntry w.kernel.curPid page))) :
    Watching { w with kernel := k', justForked := none } := by
  refine ⟨⟨fun t p hp => ?_, fun t p hp => ?_, fun _ _ h => by cases h⟩, separate, fun t p hp => ?_⟩
  · obtain ⟨exist, user⟩ := hw.tracked t p (.inl hp)
    by_cases at_page : t = w.kernel.curPid ∧ p = page
    · obtain ⟨rfl, rfl⟩ := at_page
      exact absurd hp (here user).1
    · exact hw.held.readOnly t p hp ∘ (others t p exist user at_page).writable
  · obtain ⟨exist, user⟩ := hw.tracked t p (.inr hp)
    have before := hw.held.noExecute t p hp
    by_cases at_page : t = w.kernel.curPid ∧ p = page
    · obtain ⟨rfl, rfl⟩ := at_page
      exact before ∘ (here user).2.mp
    · exact before ∘ (others t p exist user at_page).executable.mp
  · obtain ⟨exist, user⟩ := hw.tracked t p hp
    exact ⟨(tasks.exist t).trans exist, user⟩

theorem Watching.spacesUndisturbed {w : Watched} (hw : Watching w) (h : SpacesUndisturbed w.kernel k') :
    Watching { w with kernel := k', justForked := none } := by
  have same {t : Nat} {p : Page} (ht : (w.kernel.taskManager t).exist = true) (hp : UserPath p.1) :
      Narrows (w.kernel.userEntry t p) (k'.userEntry t p) := by
    rw [h.userEntry ht hp]
    exact .refl
  -- No page has become writable: the exception is one that is no user page.
  apply hw.next ([], 0) h.tasks (h.separate hw.separate) (fun t p ht hp _ => same ht hp)
  intro none
  exact absurd none.1 (by decide)

theorem Watching.forked {w : Watched} (hw : Watching w)
    (h : Forked w.kernel k' (findFreePID w.kernel)) :
    Watching ⟨k', w.readOnly ∪ withheld w.kernel Writable, w.noExecute ∪ withheld w.kernel Executable,
      some (w.kernel.curPid, findFreePID w.kernel)⟩ := by
  obtain ⟨slot, hslot⟩ : ∃ slot, findFreePID w.kernel = slot := ⟨_, rfl⟩
  rw [withheld, withheld, hslot]
  rw [hslot] at h
  have old {t : Nat} (ht : (w.kernel.taskManager t).exist = true) : t ≠ slot := fun eq => by
    rw [eq, h.fresh] at ht
    cases ht
  have root {t : Nat} (ht : (w.kernel.taskManager t).exist = true) : k'.root t = w.kernel.root t := by
    rw [Kernel.root, (h.others t (old ht)).2]
    rfl
  have narrow {t : Nat} (ht : (w.kernel.taskManager t).exist = true) {p : Page}
      (hp : UserPath p.1) : Narrows (w.kernel.userEntry t p) (k'.userEntry t p) := by
    rw [Kernel.userEntry, Kernel.userEntry, root ht]
    exact h.narrow _ (mem_spaces ht) p.1 hp p.2
  have running := hw.separate.running
  have child {p : Page} (hp : UserPath p.1) (present : Present (k'.userEntry slot p)) :
      ¬Writable (k'.userEntry slot p) ∧ Executable (k'.userEntry slot p) ∧
        Executable (k'.userEntry w.kernel.curPid p) := by
    rw [Kernel.userEntry, Kernel.userEntry, root running]
    exact h.inherits p.1 hp p.2 present
  refine ⟨⟨?_, ?_, ?_⟩, h.separate, ?_⟩
  · rintro t p (hp | ⟨rfl | rfl, user, present, locked⟩)
    · obtain ⟨exist, user⟩ := hw.tracked t p (.inl hp)
      exact hw.held.readOnly t p hp ∘ (narrow exist user).writable
    · exact locked ∘ (narrow running user).writable
    · exact fun writable => (child user writable.present).1 writable
  · rintro t p (hp | ⟨rfl | rfl, user, present, locked⟩)
    · obtain ⟨exist, user⟩ := hw.tracked t p (.inr hp)
      exact hw.held.noExecute t p hp ∘ (narrow exist user).executable.mp
    · exact locked ∘ (narrow running user).executable.mp
    · intro runs
      exact locked ((narrow running user).executable.mp (child user runs.present).2.2)
  · rintro parent kid forked p user present
    obtain ⟨rfl, rfl⟩ : w.kernel.curPid = parent ∧ slot = kid := by simpa using forked
    obtain ⟨-, runs, source⟩ := child user present
    exact iff_of_true runs source
  · have there {t : Nat} (ht : (w.kernel.taskManager t).exist = true) :
        (k'.taskManager t).exist = true := ((h.others t (old ht)).1).trans ht
    have withheldThere {t : Nat} {p : Page} (ht : t = w.kernel.curPid ∨ t = slot) :
        (k'.taskManager t).exist = true := by
      rcases ht with rfl | rfl
      · exact there running
      · exact h.exist
    rintro t p ((hp | ⟨ht, user, -⟩) | (hp | ⟨ht, user, -⟩))
    · obtain ⟨exist, user⟩ := hw.tracked t p (.inl hp)
      exact ⟨there exist, user⟩
    · exact ⟨withheldThere (p := p) ht, user⟩
    · obtain ⟨exist, user⟩ := hw.tracked t p (.inr hp)
      exact ⟨there exist, user⟩
    · exact ⟨withheldThere (p := p) ht, user⟩

theorem forkStep_watching {w w' : Watched} {e : Event} (hw : Watching w) (ok : KeepsRights w e)
    (h : ForkStep w e w') : Watching w' := by
  cases h with
  | fork cause fork user handled =>
    obtain ⟨ready, executable⟩ := ok.1 cause
    exact hw.forked (fork_forked hw.separate cause fork user ready executable handled)
  | fault fault handled =>
    obtain ⟨free, writable⟩ := ok.2 fault.cause
    obtain resolved := cowFault_resolved hw.separate fault free handled
    exact hw.next _ resolved.tasks resolved.separate resolved.others
      fun user => ⟨writable, resolved.executable user⟩
  | timer cause alive handled =>
    simp only [handleInterrupt, cause] at handled
    exact hw.spacesUndisturbed (timer_spacesUndisturbed hw.separate alive handled)
  | user ram tables =>
    exact hw.spacesUndisturbed
      ⟨⟨fun _ => rfl, fun _ => rfl⟩, hw.separate.running, rfl, rfl, tables⟩

/-- In every run of forks and copy-on-write faults that meet the condition, from sound page tables,
no right is gained. -/
theorem rights_never_widen {w : Watched} (h : Reachable forkSystem KeepsRights w) :
    RightsHeld w := by
  have watching : Watching w := by
    apply h.invariant (P := Watching)
    · rintro w ⟨separate, readOnly, noExecute, forked⟩
      refine ⟨⟨?_, ?_, ?_⟩, separate, ?_⟩
      · rw [readOnly]
        exact fun _ _ h => absurd h (Set.notMem_empty _)
      · rw [noExecute]
        exact fun _ _ h => absurd h (Set.notMem_empty _)
      · rw [forked]
        exact fun _ _ h => by cases h
      · rw [readOnly, noExecute]
        exact fun _ _ h => absurd h (by simp)
    · exact fun w e w' hw ok step => forkStep_watching hw ok step
  exact watching.held

/-! ## A program with one page of code and one of stack

Its PML4 is in frame 5, that of the kernel in frame 1; `code` is the entry of the page at
`0x400000`. -/

def pagesRam : Nat → Nat → U64
  | 1, 256 => 0x2003
  | 2, 0 => 0x3003
  | 3, 32 => 0x4003
  | 5, 256 => 0x2003
  | 5, 0 => 0x6007
  | 6, 0 => 0x7007
  | 6, 1 => 0xA007
  | 7, 2 => 0x8007
  | 10, 511 => 0xB007
  | 11, 496 => 0xC007
  | _, _ => 0

def pagesMemory : Memory :=
  { shellMemory with
    ram := pagesRam
    physFrames := fun f => if f = 9 ∨ f = 12 then ⟨1, 1⟩ else if f < 13 then ⟨0, 0b101⟩ else ⟨0, 0⟩
    paging := ⟨0x5000, 0x5000, 0x1000⟩ }

def pagesKernel (code : U64) : Kernel :=
  { idleKernel with
    mem := pagesMemory.setEntry (8, 0) code
    taskManager := fun p =>
      if p = 0 then idleTask else if p = 1 then { shellTask with basePML4 := 0x5000 } else zeroTask
    curPid := 1 }

/-- A store to the page of code. -/
def codeStore : Interrupt :=
  ⟨.pageFault, { zeroRegisters with cs := 0x1B, rip := 0x400014, cr2 := 0x400800, errorCode := 7 },
    noDevices, 0⟩

/-- The fork, and after it the store. -/
def pagesForked (code : U64) : Kernel := (answer (pagesKernel code) forkCall).1

def pagesStored (code : U64) : Kernel := (answer (pagesForked code) codeStore).1

/-- Code that may be written, and data that may neither be written nor executed. -/
def codePage : U64 := 0x9007
def constPage : U64 := 0x8000000000009005

theorem pagesMemory_forest : Forest pagesMemory {r | r ∈ [1, 5]} :=
  .of_reached (by decide +kernel) (by decide +kernel) (by decide)

theorem pagesMemory_code : pagesMemory.tableAt 5 [0, 0, 2] = some 8 := by decide +kernel

theorem pagesKernel_idle (code : U64) : (pagesKernel code).root 0 = 1 := by
  have task : (pagesKernel code).taskManager 0 = idleTask := rfl
  rw [Kernel.root, task]
  decide

theorem pagesKernel_shell (code : U64) : (pagesKernel code).root 1 = 5 := by
  have task : (pagesKernel code).taskManager 1 = { shellTask with basePML4 := 0x5000 } := rfl
  rw [Kernel.root, task]
  decide

theorem pagesKernel_spaces (code : U64) : spaces (pagesKernel code) = {r | r ∈ [1, 5]} := by
  have idle := pagesKernel_idle code
  have shell := pagesKernel_shell code
  ext r
  constructor
  · rintro ⟨t, ht, rfl⟩
    match t with
    | 0 => rw [idle]; decide
    | 1 => rw [shell]; decide
    | t + 2 => cases ht
  · intro hr
    obtain rfl | rfl : r = 1 ∨ r = 5 := by simpa using hr
    · exact ⟨0, rfl, idle⟩
    · exact ⟨1, rfl, shell⟩

theorem pagesKernel_separate (code : U64) : SeparateSpaces (pagesKernel code) where
  forest := by
    rw [pagesKernel_spaces]
    exact setEntry_forest (d := 0) pagesMemory_forest (by decide : 5 ∈ [1, 5]) rfl pagesMemory_code
  own s t hs ht same := by
    have different : ¬(pagesKernel code).root 0 = (pagesKernel code).root 1 := by
      rw [pagesKernel_idle, pagesKernel_shell]
      decide
    match s, t with
    | 0, 0 => rfl
    | 0, 1 => exact absurd same different
    | 1, 0 => exact absurd same.symm different
    | 1, 1 => rfl
    | s + 2, _ => cases hs
    | _, t + 2 => cases ht
  idle := rfl
  running := rfl

theorem pagesKernel_ready (code : U64) : ForkReady (pagesKernel code) where
  slot := by
    have free : findFreePID (pagesKernel codePage) = 2 := by decide +kernel
    have same : findFreePID (pagesKernel code) = findFreePID (pagesKernel codePage) := rfl
    rw [same, free]
    decide
  frames := by
    have free : ∀ f ∈ (Finset.range 64).filter (20 ≤ ·), f < frameCount (pagesKernel codePage).mem ∧
        (pagesKernel codePage).mem.marked f = false := by decide +kernel
    have enough : 7 * (((pagesKernel codePage).taskManager 1).memoryData.pageCount.toNat +
        ((pagesKernel codePage).taskManager 1).memoryData.stackPageCount.toNat) + 30 ≤
        ((Finset.range 64).filter (20 ≤ ·)).card := by decide +kernel
    exact ⟨_, enough, free⟩
  heap := by
    have room : ∀ j < 6, virtualMemoryBarrier ≤ nextPageAddress
        { (pagesKernel codePage).kernelTask with
          pageCount := (pagesKernel codePage).kernelTask.pageCount + BitVec.ofNat 64 j } := by
      decide +kernel
    exact room

/-- The run of the fork and the store. -/
def watchedForked (code : U64) : Watched :=
  ⟨pagesForked code, ∅ ∪ withheld (pagesKernel code) Writable,
    ∅ ∪ withheld (pagesKernel code) Executable,
    some ((pagesKernel code).curPid, findFreePID (pagesKernel code))⟩

def watchedStored (code : U64) : Watched :=
  { watchedForked code with kernel := pagesStored code, justForked := none }

theorem watchedForked_step (code : U64)
    (handled : (handleInterrupt (pagesKernel code) forkCall).isSome = true) :
    ForkStep ⟨pagesKernel code, ∅, ∅, none⟩ (.interrupt forkCall) (watchedForked code) :=
  .fork rfl rfl Nat.one_ne_zero (handled_answer handled)

theorem watchedStored_step {code : U64} (fault : CowFault (pagesForked code) codeStore)
    (handled : (handleInterrupt (pagesForked code) codeStore).isSome = true) :
    ForkStep (watchedForked code) (.interrupt codeStore) (watchedStored code) := by
  have answered := handled_answer handled
  have kernel : (watchedForked code).kernel = pagesForked code := by
    simp only [watchedForked]
  rw [← kernel] at fault answered
  have step := ForkStep.fault fault answered
  rw [kernel] at step
  exact step

theorem codeStore_fault (code e : U64)
    (near : faultKills ((pagesForked code).taskManager 1).memoryData codeStore.frame.cr2 = false)
    (current : (pagesForked code).curPid = 1)
    (word : (pagesForked code).userEntry 1 (pageOf codeStore.frame.cr2) = some e)
    (bits : e.getLsbD 0 = true ∧ e.getLsbD 1 = false ∧ e &&& cowBit ≠ 0) :
    CowFault (pagesForked code) codeStore := by
  have user : codeStore.frame.cr2 &&& ~~~0xFFF < virtualMemoryBarrier := by decide
  constructor
  · rfl
  · rw [current]
    exact near
  · exact user
  · rw [current]
    exact ⟨e, word, bits⟩

theorem codePage_executable : ∀ v ∈ sharedPages ((pagesKernel codePage).taskManager 1).memoryData,
    MappedExecutable (pagesKernel codePage).mem ((pagesKernel codePage).root 1) v := by
  have pages : sharedPages ((pagesKernel codePage).taskManager 1).memoryData =
      [0x400000, stackBase] := by decide +kernel
  have code : (pagesKernel codePage).mem.wordAt ((pagesKernel codePage).root 1) (pathOf 0x400000)
      (leafIndex 0x400000) = some 0x9007 := by decide +kernel
  have stack : (pagesKernel codePage).mem.wordAt ((pagesKernel codePage).root 1) (pathOf stackBase)
      (leafIndex stackBase) = some 0xC007 := by decide +kernel
  intro v hv _
  rw [pages] at hv
  obtain rfl | rfl : v = 0x400000 ∨ v = stackBase := by simpa using hv
  · rw [code, executable_some]
    decide
  · rw [stack, executable_some]
    decide

theorem rights_never_widen_code : RightsHeld (watchedStored codePage) := by
  have fork := watchedForked_step codePage (by decide +kernel)
  have current : (pagesForked codePage).curPid = 1 := by decide +kernel
  have store := watchedStored_step (codeStore_fault codePage 0x9205
    (by decide +kernel) current (by decide +kernel) (by decide)) (by decide +kernel)
  have writable : (pagesKernel codePage).userEntry 1 (pageOf 0x400800) = some 0x9007 := by
    decide +kernel
  have free : ∀ f ∈ ({60} : Finset Nat), f < frameCount (pagesForked codePage).mem ∧
      (pagesForked codePage).mem.marked f = false := by decide +kernel
  refine rights_never_widen (.step (.step (.init ⟨pagesKernel_separate _, rfl, rfl, rfl⟩) ?_ fork) ?_
    store)
  · exact ⟨fun _ => ⟨pagesKernel_ready _, codePage_executable⟩, fun h => by cases h⟩
  · have cause : codeStore.cause ≠ .syscall := by decide
    simp only [KeepsRights, watchedForked]
    refine ⟨fun h => absurd h cause, fun _ => ⟨⟨{60}, le_refl 1, free⟩, ?_⟩⟩
    rintro (none | ⟨-, -, -, locked⟩)
    · exact none
    · refine locked (?_ : Writable ((pagesKernel codePage).userEntry 1 (pageOf 0x400800)))
      rw [writable, writable_some]
      decide

/-- Data that may neither be written nor executed becomes writable by the store. -/
theorem rights_widen : ¬∀ w, Reachable forkSystem (fun _ _ => True) w → RightsHeld w := by
  intro claimed
  have fork := watchedForked_step constPage (by decide +kernel)
  have current : (pagesForked constPage).curPid = 1 := by decide +kernel
  have store := watchedStored_step (codeStore_fault constPage 0x8000000000009205
    (by decide +kernel) current (by decide +kernel) (by decide)) (by decide +kernel)
  have held := claimed _ (.step (.step (.init ⟨pagesKernel_separate _, rfl, rfl, rfl⟩) trivial fork)
    trivial store)
  have before : (pagesKernel constPage).userEntry 1 (pageOf 0x400800) = some constPage := by
    decide +kernel
  have after : (pagesStored constPage).userEntry 1 (pageOf 0x400800) = some 0x8000000000018007 := by
    decide +kernel
  apply held.readOnly 1 (pageOf 0x400800)
  · simp only [watchedStored, watchedForked]
    refine .inr ⟨.inl rfl, userPath_of_lt (by decide), ?_, ?_⟩
    · show Present ((pagesKernel constPage).userEntry 1 (pageOf 0x400800))
      rw [before, present_some]
      decide
    · show ¬Writable ((pagesKernel constPage).userEntry 1 (pageOf 0x400800))
      rw [before, writable_some]
      decide
  · simp only [watchedStored]
    rw [after, writable_some]
    decide

end ChudOS
