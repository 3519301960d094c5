import ChudOS.ErrorHandling.Exceptions
import ChudOS.Library.Transition
import ChudOS.LowLevel.FrameMarks

/-!
# Calls into the memory functions

Memory as a transition system: whatever the kernel does with physical memory is a sequence of calls
of the functions of `Memory.c`, each with arguments of the caller's choice, and of writes to RAM.
No call takes a frame away from the kernel, and only `free_page` makes a frame free.
-/

namespace ChudOS

open Transition

/-- `AHCI_Setup_Port` maps its command list on the next free frame, with `malloc_specific`. -/
def ahciCommandList (m : Memory) (kernelTask : TaskMemoryDefinition) :
    Option (Memory × TaskMemoryDefinition × U64) :=
  mallocSpecific m kernelTask (findNextFreePhysical m) ⟨kernelFlagsUncacheable, false⟩

/-- `allocFound` is `alloc_page` on the frame `FindNextFreePhysical` returned to its caller, as the
loaders and the page-fault handler use it. -/
inductive MemoryCall where
  | malloc (t : TaskMemoryDefinition)
  | mallocSpecific (t : TaskMemoryDefinition) (requestedAddress : U64)
      (permissions : PagePermissions)
  | commandList (kernelTask : TaskMemoryDefinition)
  | allocPage (page : PageDetails)
  | allocFound (permissions : PagePermissions) (virtualAddress : U64)
  | walk (virtualAddress : U64)
  | resolveCoW (slot : Slot) (virtualAddress : U64)
  | freePage (page : PageDetails)
  | setCr3 (address : U64)
  | write (ram : Nat → Nat → U64)

/-- The page a caller of `FindNextFreePhysical` asks `alloc_page` for. -/
def foundPage (m : Memory) (permissions : PagePermissions) (virtualAddress : U64) : PageDetails :=
  ⟨permissions, virtualAddress, findNextFreePhysical m⟩

def MemoryCall.run (m : Memory) : MemoryCall → Option Memory
  | .malloc t => (ChudOS.malloc m t).map (·.1)
  | .mallocSpecific t a p => (ChudOS.mallocSpecific m t a p).map (·.1)
  | .commandList t => (ahciCommandList m t).map (·.1)
  | .allocPage page => (ChudOS.allocPage m page).map (·.1)
  | .allocFound p v => (ChudOS.allocPage m (foundPage m p v)).map (·.1)
  | .walk v => some (calculatePagePhysicalEntryAddress m (extractPageEntries v)).1
  | .resolveCoW slot v => ChudOS.resolveCoW m slot v
  | .freePage page => some (freedPage m page)
  | .setCr3 a => some (memSetCr3 m a)
  | .write ram => some { m with ram := ram }

def memorySystem : LTS Memory MemoryCall where
  init _ := True
  step m c m' := c.run m = some m'

/-- `m'` comes from `m` by calls of the memory functions. -/
def MemoryCalls (m m' : Memory) : Prop := ∃ cs, Run memorySystem m cs m'

variable {m m' m'' : Memory} {t t' : TaskMemoryDefinition} {a : U64}

/-! ## The kernel's frames -/

theorem giveUpShare_marks (m : Memory) (slot : Slot) : KeepsMarks m (giveUpShare m slot) := by
  unfold giveUpShare
  dsimp only
  exact (KeepsMarks.recount _ _).trans (.setEntry _ _)

theorem mapFresh_marks (m : Memory) (slot : Slot) (x : U64) : KeepsMarks m (mapFresh m slot x) := by
  unfold mapFresh
  dsimp only
  exact (KeepsMarks.setEntry _ _).trans (memSetBit_marks _ _)

theorem resolveCoW_marks {slot : Slot} (h : resolveCoW m slot a = some m') : KeepsMarks m m' := by
  unfold resolveCoW at h
  dsimp only at h
  split at h
  · cases h
    exact .of_frames rfl rfl
  · simp only [copyPage, Option.bind_eq_bind, Option.bind_eq_some_iff] at h
    obtain ⟨src, -, dst, -, h⟩ := h
    cases h
    exact ((giveUpShare_marks m slot).trans (mapFresh_marks _ _ _)).trans (.of_frames rfl rfl)

/-- Only `free_page` makes a frame free. -/
theorem MemoryCall.run_marks {c : MemoryCall} (h : c.run m = some m')
    (notFree : ∀ page, c ≠ .freePage page) : KeepsMarks m m' := by
  cases c <;> simp only [MemoryCall.run, Option.map_eq_some_iff, Option.some.injEq,
    Prod.exists, exists_and_right, exists_eq_right] at h
  case malloc t =>
    obtain ⟨t', b, h⟩ := h
    exact malloc_marks h
  case mallocSpecific t a p =>
    obtain ⟨t', b, h⟩ := h
    exact mallocSpecific_marks h
  case commandList t =>
    obtain ⟨t', b, h⟩ := h
    exact mallocSpecific_marks h
  case allocPage page =>
    obtain ⟨b, h⟩ := h
    exact allocPage_marks h
  case allocFound p v =>
    obtain ⟨b, h⟩ := h
    exact allocPage_marks h
  case walk v => exact h ▸ walk_marks _ _
  case resolveCoW slot v => exact resolveCoW_marks h
  case freePage page => exact absurd rfl (notFree page)
  case setCr3 a => exact h ▸ .of_frames rfl rfl
  case write ram => exact h ▸ .of_frames rfl rfl

/-- No call takes a frame away from the kernel. -/
theorem MemoryCall.run_owned {c : MemoryCall} (h : c.run m = some m') : KeepsOwned m m' := by
  by_cases free : ∃ page, c = .freePage page
  · obtain ⟨page, rfl⟩ := free
    cases h
    exact freePage_owned _ _
  · exact (MemoryCall.run_marks h fun page eq => free ⟨page, eq⟩).toKeepsOwned

namespace MemoryCalls

theorem refl : MemoryCalls m m := ⟨[], .nil m⟩

theorem of_eq (h : m' = m) : MemoryCalls m m' := h ▸ refl

theorem trans (h : MemoryCalls m m') (g : MemoryCalls m' m'') : MemoryCalls m m'' :=
  let ⟨cs, hcs⟩ := h
  let ⟨ds, hds⟩ := g
  ⟨cs ++ ds, hcs.append hds⟩

theorem call (c : MemoryCall) (h : c.run m = some m') : MemoryCalls m m' :=
  ⟨[c], .cons h (.nil m')⟩

theorem setCr3 (a : U64) : MemoryCalls m (memSetCr3 m a) := .call (.setCr3 a) rfl

theorem walk (v : U64) :
    MemoryCalls m (calculatePagePhysicalEntryAddress m (extractPageEntries v)).1 :=
  .call (.walk v) rfl

theorem write (h : m' = { m with ram := m'.ram }) : MemoryCalls m m' :=
  .call (.write m'.ram) (congrArg some h.symm)

theorem setEntry (s : Slot) (x : U64) : MemoryCalls m (m.setEntry s x) := .write rfl

theorem zeroFrame (f : Nat) : MemoryCalls m (m.zeroFrame f) := .write rfl

theorem freeTable (table physicalAddress : U64) :
    MemoryCalls m (freeTable m table physicalAddress) :=
  .call (.freePage _) rfl

theorem owned (h : MemoryCalls m m') {f : Nat} (hf : f ≠ 0) (ho : m.owned f = true) :
    m'.owned f = true := by
  obtain ⟨cs, run⟩ := h
  have keep (m : Memory) (c : MemoryCall) (m' : Memory) (ho : m.owned f = true)
      (hs : c.run m = some m') : m'.owned f = true := (MemoryCall.run_owned hs).owned f hf ho
  exact run.invariant (P := fun m => m.owned f = true) keep ho

end MemoryCalls

/-! ## The composed functions of `Memory.c` and `Tasks.c` -/

theorem allocPage_calls {page : PageDetails} (h : allocPage m page = some (m', a)) :
    MemoryCalls m m' :=
  .call (.allocPage page) (by simp [MemoryCall.run, h])

theorem allocFound_calls {p : PagePermissions} {v : U64}
    (h : allocPage m ⟨p, v, findNextFreePhysical m⟩ = some (m', a)) : MemoryCalls m m' :=
  .call (.allocFound p v) (by simp [MemoryCall.run, foundPage, h])

theorem malloc_calls (h : malloc m t = some (m', t', a)) : MemoryCalls m m' :=
  .call (.malloc t) (by simp [MemoryCall.run, h])

theorem physAddr_calls (m : Memory) (v : U64) : MemoryCalls m (physAddr m v).1 :=
  .walk (v &&& ~~~0xFFF)

theorem createUserMemory_calls (h : createUserMemory m t = some (m', t', a)) :
    MemoryCalls m m' := by
  obtain ⟨m₁, va, f, hm, -, hp⟩ := createUserMemory_cases h
  obtain rfl : (physAddr _ va).1 = m' := congrArg Prod.fst hp
  exact (malloc_calls hm).trans (.trans (.write rfl) (physAddr_calls _ va))

theorem clearPD_calls {fuel pd : Nat} (h : clearPD fuel m pd = some m') : MemoryCalls m m' := by
  induction fuel generalizing m with
  | zero => cases h
  | succ fuel ih =>
    rw [clearPD] at h
    dsimp only at h
    split at h
    · exact ((MemoryCalls.freeTable _ _).trans (.setEntry _ _)).trans (ih h)
    · cases h
      exact .refl

theorem clearPDPT_calls {fuel pdpt : Nat} (h : clearPDPT fuel m pdpt = some m') :
    MemoryCalls m m' := by
  induction fuel generalizing m with
  | zero => cases h
  | succ fuel ih =>
    rw [clearPDPT] at h
    dsimp only at h
    split at h
    · simp only [Option.bind_eq_bind, Option.bind_eq_some_iff] at h
      obtain ⟨m₁, h₁, h⟩ := h
      exact ((clearPD_calls h₁).trans (.freeTable _ _)).trans (.trans (.setEntry _ _) (ih h))
    · cases h
      exact .refl

theorem clearPML4_calls {fuel pml4 : Nat} (h : clearPML4 fuel m pml4 = some m') :
    MemoryCalls m m' := by
  induction fuel generalizing m with
  | zero => cases h
  | succ fuel ih =>
    rw [clearPML4] at h
    dsimp only at h
    split at h
    · simp only [Option.bind_eq_bind, Option.bind_eq_some_iff] at h
      obtain ⟨m₁, h₁, h⟩ := h
      exact ((clearPDPT_calls h₁).trans (.freeTable _ _)).trans (.trans (.setEntry _ _) (ih h))
    · cases h
      exact .refl

theorem teardown_calls {fuel : Nat} {pml4 : U64} (h : teardown fuel m pml4 = some m') :
    MemoryCalls m m' := by
  simp only [teardown, Option.bind_eq_bind, Option.bind_eq_some_iff] at h
  obtain ⟨m₁, h₁, h⟩ := h
  cases h
  have cleared := (MemoryCalls.setCr3 pml4).trans (clearPML4_calls h₁)
  have left := (cleared.trans (.setCr3 m₁.paging.kernelPML4Physical)).trans
    (.zeroFrame (frameOf pml4))
  exact left.trans ((physAddr_calls _ _).trans (.freeTable _ _))

theorem freeTaskMemoryByPml4_calls {fuel : Nat} {pml4 : U64}
    (h : freeTaskMemoryByPml4 fuel m pml4 = some m') : MemoryCalls m m' := by
  simp only [freeTaskMemoryByPml4, Option.bind_eq_bind, Option.bind_eq_some_iff] at h
  obtain ⟨m₁, h₁, h⟩ := h
  split at h <;> cases h
  · exact teardown_calls h₁
  · exact (teardown_calls h₁).trans (.setCr3 _)

end ChudOS
