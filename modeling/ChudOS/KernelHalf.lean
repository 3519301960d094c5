import ChudOS.Library.Transition
import ChudOS.LowLevel.TableCalls

/-!
# The half of the kernel

The address spaces as a system: pages are mapped and given back at any address, address spaces are
created, selected and torn down, in any order. All live spaces keep the links of the kernel half
that they were created with, and a user program gets to no page of it.

## Main definitions

* `Spaces`, `SpaceCall`, `spaceSystem` — the calls of `Memory.c` and the PML4s in use.
* `Supplied` — `FindNextFreePhysical` never returns 0, and `KernelTask` has kernel addresses left.
* `userGuard` — the bit U/S of the entries above the last level.
* `Guarded` — what a walk of the CPU in user mode meets.
-/

namespace ChudOS

open Memory TypedMemory Transition

/-- The memory, and the frames of the PML4s that are in use. -/
structure Spaces where
  mem : Memory
  live : Set Nat

/-- The calls, each with the arguments of its caller. A PML4 is given by its frame. -/
inductive SpaceCall where
  | malloc (t : TaskMemoryDefinition)
  | mallocSpecific (t : TaskMemoryDefinition) (requestedAddress : U64)
      (permissions : PagePermissions)
  | allocPage (page : PageDetails)
  | allocPageNoInvlpg (page : PageDetails)
  | freePage (page : PageDetails)
  | physAddr (pointer : U64)
  | createUserMemory (kernelTask : TaskMemoryDefinition)
  | setCr3 (root : Nat)
  | teardown (fuel root : Nat)

inductive SpaceStep (s : Spaces) : SpaceCall → Spaces → Prop
  | malloc {t t' : TaskMemoryDefinition} {m : Memory} {a : U64} :
      ChudOS.malloc s.mem t = some (m, t', a) → SpaceStep s (.malloc t) ⟨m, s.live⟩
  | mallocSpecific {t t' : TaskMemoryDefinition} {v : U64} {p : PagePermissions} {m : Memory}
      {a : U64} : ChudOS.mallocSpecific s.mem t v p = some (m, t', a) →
      SpaceStep s (.mallocSpecific t v p) ⟨m, s.live⟩
  | allocPage {page : PageDetails} {m : Memory} {a : U64} :
      ChudOS.allocPage s.mem page = some (m, a) → SpaceStep s (.allocPage page) ⟨m, s.live⟩
  | allocPageNoInvlpg {page : PageDetails} {m : Memory} {a : U64} :
      ChudOS.allocPageNoInvlpg s.mem page = some (m, a) →
      SpaceStep s (.allocPageNoInvlpg page) ⟨m, s.live⟩
  | freePage {page : PageDetails} : SpaceStep s (.freePage page) ⟨freedPage s.mem page, s.live⟩
  | physAddr {v : U64} : SpaceStep s (.physAddr v) ⟨(ChudOS.physAddr s.mem v).1, s.live⟩
  | createUserMemory {t t' : TaskMemoryDefinition} {m : Memory} {a : U64} :
      ChudOS.createUserMemory s.mem t = some (m, t', a) →
      SpaceStep s (.createUserMemory t) ⟨m, insert (frameOf a) s.live⟩
  | setCr3 {r : Nat} : r ∈ s.live → SpaceStep s (.setCr3 r) ⟨memSetCr3 s.mem (physOf r), s.live⟩
  /-- The PML4 of the kernel is never torn down. -/
  | teardown {fuel r : Nat} {m : Memory} : r ∈ s.live →
      r ≠ frameOf s.mem.paging.kernelPML4Physical →
      freeTaskMemoryByPml4 fuel s.mem (physOf r) = some m →
      SpaceStep s (.teardown fuel r) ⟨m, s.live \ {r}⟩

/-- No call of `FindNextFreePhysical` returns 0, and the pages of `KernelTask`, which grow upwards
from the barrier, have not come to the end of the address space when a PML4 is taken from them. -/
def Supplied (s : Spaces) : SpaceCall → Prop
  | .malloc t => MallocTakes HasFrame s.mem t
  | .mallocSpecific t v p => AllocTakes HasFrame s.mem ⟨p, nextPageAddress t, v⟩
  | .allocPage page => AllocTakes HasFrame s.mem page
  | .allocPageNoInvlpg page => AllocNoInvlpgTakes HasFrame s.mem page
  | .freePage page => FreeTakes HasFrame s.mem page
  | .physAddr v => PhysAddrTakes HasFrame s.mem v
  | .createUserMemory t => MallocTakes HasFrame s.mem t ∧ virtualMemoryBarrier ≤ nextPageAddress t
  | .setCr3 _ => True
  | .teardown fuel r => TeardownTakes HasFrame fuel s.mem (physOf r)

/-- One address space, in sound page tables. -/
structure OneSpace (s : Spaces) (r : Nat) : Prop where
  sound : ∃ θ, Sound (fun _ _ _ => True) θ s.mem
  frame : r < 2 ^ 52
  paging : s.mem.paging = ⟨physOf r, physOf r, physOf r⟩
  live : s.live = {r}

def spaceSystem (start : Spaces → Nat → Prop) : LTS Spaces SpaceCall where
  init s := ∃ r, OneSpace s r ∧ start s r
  step := SpaceStep

/-! ## One call -/

variable {guard : Guard} {θ θ' : Kinds} {s s' : Spaces} {call : SpaceCall} {m m' : Memory}
  {r r' : Nat} {i : Fin 512} {v : U64}

/-- The PML4s in use are PML4s, and the current one and that of the kernel are among them. -/
structure SpacesSound (guard : Guard) (θ : Kinds) (s : Spaces) : Prop where
  sound : Sound guard θ s.mem
  selected : s.mem.paging.cr3 = s.mem.paging.pml4Physical
  current : ∃ r ∈ s.live, s.mem.paging.pml4Physical = physOf r
  kernel : ∃ r ∈ s.live, s.mem.paging.kernelPML4Physical = physOf r
  roots : ∀ r ∈ s.live, θ r = some .pml4

/-- What a call leaves: the PML4s that stay in use keep their links to the kernel half, and a new one
has those of an old one. -/
structure SpaceKept (s s' : Spaces) : Prop where
  links : ∀ r ∈ s.live, r ∈ s'.live → ∀ i, kernelHalf i → link (s.mem.tables r i) ≠ none →
    s'.mem.tables r i = s.mem.tables r i
  copies : ∀ r ∈ s'.live, r ∉ s.live → ∃ r₀ ∈ s.live, r₀ ∈ s'.live ∧ ∀ i, kernelHalf i →
    s'.mem.tables r i = s'.mem.tables r₀ i

namespace SpacesSound

theorem bound (h : SpacesSound guard θ s) (hr : r ∈ s.live) : r < 2 ^ 35 := by
  have inside := h.sound.inMemory r _ (h.roots r hr)
  have count := frameCount_lt h.sound.small
  omega

theorem frame (h : SpacesSound guard θ s) (hr : r ∈ s.live) : frameOf (physOf r) = r :=
  frameOf_physOf ((h.bound hr).trans (by decide))

/-- A call that stays in its address space, and tears none down. -/
theorem stays (h : SpacesSound guard θ s) (ev : Evolves guard ∅ θ s.mem θ' m)
    (paging : m.paging = s.mem.paging) :
    SpacesSound guard θ' ⟨m, s.live⟩ ∧ SpaceKept s ⟨m, s.live⟩ := by
  refine ⟨⟨ev.sound, ?_, ?_, ?_, fun r hr => ev.kinds _ _ (h.roots r hr)⟩, ⟨fun r hr _ i upper => ?_,
    fun r hr hr' => absurd hr hr'⟩⟩
  · rw [paging]
    exact h.selected
  · rw [paging]
    exact h.current
  · rw [paging]
    exact h.kernel
  · exact ev.links r _ (h.roots r hr) (Set.notMem_empty r) i upper

/-- A new address space. -/
theorem creates (h : SpacesSound guard θ s) (ev : Evolves guard ∅ θ s.mem θ' m)
    (paging : m.paging = s.mem.paging) (hr : θ' r = some .pml4)
    (copy : ∀ i, kernelHalf i → m.tables r i = m.tables (frameOf s.mem.paging.pml4Physical) i) :
    SpacesSound guard θ' ⟨m, insert r s.live⟩ ∧ SpaceKept s ⟨m, insert r s.live⟩ := by
  obtain ⟨sound, kept⟩ := h.stays ev paging
  obtain ⟨r₀, hr₀, current⟩ := h.current
  obtain ⟨r₁, hr₁, kernel⟩ := sound.kernel
  refine ⟨⟨sound.sound, sound.selected, ⟨r₀, .inr hr₀, paging ▸ current⟩, ⟨r₁, .inr hr₁, kernel⟩,
    ?_⟩, fun q hq _ => kept.links q hq hq, fun q hq hq' => ?_⟩
  · rintro q (rfl | hq)
    · exact hr
    · exact sound.roots q hq
  · obtain rfl := hq.resolve_right hq'
    refine ⟨r₀, hr₀, .inr hr₀, fun i upper => ?_⟩
    rw [copy i upper, current, h.frame hr₀]

/-- Another address space is selected. -/
theorem selects (h : SpacesSound guard θ s) (hr : r ∈ s.live) :
    SpacesSound guard θ ⟨memSetCr3 s.mem (physOf r), s.live⟩ ∧
      SpaceKept s ⟨memSetCr3 s.mem (physOf r), s.live⟩ := by
  have ev := memSetCr3_evolves h.sound (v := physOf r) (by rw [h.frame hr]; exact h.roots r hr)
  exact ⟨⟨ev.sound, rfl, ⟨r, hr, rfl⟩, h.kernel, h.roots⟩, fun _ _ _ _ _ _ => rfl,
    fun r hr hr' => absurd hr hr'⟩

/-- The space `r` is gone, and a space that is left is selected. -/
theorem drops (h : SpacesSound guard θ s)
    (user : r ≠ frameOf s.mem.paging.kernelPML4Physical) (ev : Evolves guard {r} θ s.mem θ' m)
    (selected : m.paging.cr3 = m.paging.pml4Physical)
    (current : ∃ q ∈ s.live \ {r}, m.paging.pml4Physical = physOf q)
    (kernel : m.paging.kernelPML4Physical = s.mem.paging.kernelPML4Physical) :
    SpacesSound guard θ' ⟨m, s.live \ {r}⟩ ∧ SpaceKept s ⟨m, s.live \ {r}⟩ := by
  obtain ⟨q, hq, eq⟩ := h.kernel
  rw [eq, h.frame hq] at user
  refine ⟨⟨ev.sound, selected, current, ⟨q, ⟨hq, user.symm⟩, kernel.trans eq⟩,
    fun q hq => ev.kinds _ _ (h.roots q hq.1)⟩, ⟨fun q hq hq' i upper => ?_,
    fun q hq hq' => absurd hq.1 hq'⟩⟩
  exact ev.links q _ (h.roots q hq) hq'.2 i upper

theorem tearsDown {fuel : Nat} (hg : Admits guard) (h : SpacesSound guard θ s) (hr : r ∈ s.live)
    (user : r ≠ frameOf s.mem.paging.kernelPML4Physical)
    (finds : TeardownTakes HasFrame fuel s.mem (physOf r))
    (freed : freeTaskMemoryByPml4 fuel s.mem (physOf r) = some m) :
    ∃ θ', SpacesSound guard θ' ⟨m, s.live \ {r}⟩ ∧ SpaceKept s ⟨m, s.live \ {r}⟩ := by
  simp only [freeTaskMemoryByPml4, Option.bind_eq_bind, Option.bind_eq_some_iff] at freed
  obtain ⟨m₁, torn, freed⟩ := freed
  obtain ⟨q, hq, kernel⟩ := h.kernel
  have frame := h.frame hr
  obtain ⟨θ', ev, paging⟩ := teardown_evolves hg h.sound (by rw [frame]; exact h.roots r hr)
    (by rw [kernel, h.frame hq]; exact h.roots q hq) finds torn
  rw [frame] at ev
  have other : q ≠ r := by
    rintro rfl
    rw [kernel, h.frame hq] at user
    exact user rfl
  split_ifs at freed with own
  · cases freed
    refine ⟨θ', h.drops user ev ?_ ⟨q, ⟨hq, other⟩, ?_⟩ ?_⟩
    · rw [paging]
      rfl
    · rw [paging]
      exact kernel
    · rw [paging]
      rfl
  · cases freed
    obtain ⟨c, hc, current⟩ := h.current
    have kept : c ≠ r := by
      rintro rfl
      exact own current
    have back := memSetCr3_evolves ev.sound (v := s.mem.paging.pml4Physical)
      (by rw [current, h.frame hc]; exact ev.kinds _ _ (h.roots c hc))
    refine ⟨θ', h.drops user (ev.trans (back.mono (Set.empty_subset _))) rfl ⟨c, ⟨hc, kept⟩,
      current⟩ ?_⟩
    show m₁.paging.kernelPML4Physical = _
    rw [paging]
    rfl

/-- Every call keeps the invariant. -/
theorem step (hg : Admits guard) (h : SpacesSound guard θ s) (supplied : Supplied s call)
    (hs : SpaceStep s call s') : ∃ θ', SpacesSound guard θ' s' ∧ SpaceKept s s' := by
  cases hs with
  | malloc done =>
    obtain ⟨θ', ev⟩ := malloc_evolves hg h.sound supplied done
    exact ⟨θ', h.stays ev (malloc_layout done).1⟩
  | mallocSpecific done =>
    obtain ⟨θ', ev⟩ := mallocSpecific_evolves hg h.sound supplied done
    exact ⟨θ', h.stays ev (mallocSpecific_layout done).1⟩
  | allocPage done =>
    obtain ⟨θ', ev⟩ := allocPage_evolves hg h.sound supplied done
    exact ⟨θ', h.stays ev (allocPage_layout done).1⟩
  | allocPageNoInvlpg done =>
    obtain ⟨θ', ev⟩ := allocPageNoInvlpg_evolves hg h.sound supplied done
    exact ⟨θ', h.stays ev (allocPageNoInvlpg_layout done).1⟩
  | freePage =>
    obtain ⟨θ', ev⟩ := freePage_evolves hg h.sound supplied
    exact ⟨θ', h.stays ev (freedPage_layout _ _).1⟩
  | physAddr =>
    obtain ⟨θ', ev⟩ := physAddr_evolves hg h.sound supplied
    exact ⟨θ', h.stays ev (physAddr_layout _ _).1⟩
  | createUserMemory done =>
    obtain ⟨θ', ev, root, copy⟩ := createUserMemory_evolves hg h.sound h.selected supplied.2
      supplied.1 done
    exact ⟨θ', h.creates ev (createUserMemory_layout done).1 root copy⟩
  | setCr3 hr => exact ⟨θ, h.selects hr⟩
  | teardown hr user freed => exact h.tearsDown hg hr user supplied freed

end SpacesSound

/-- The start of a run. -/
theorem OneSpace.spacesSound (h : OneSpace s r) (sound : Sound guard θ s.mem) :
    SpacesSound guard θ s := by
  have root := sound.root
  rw [h.paging] at root
  change θ (frameOf (physOf r)) = _ at root
  rw [frameOf_physOf h.frame] at root
  have here : r ∈ s.live := by rw [h.live]; rfl
  refine ⟨sound, ?_, ⟨r, here, ?_⟩, ⟨r, here, ?_⟩, fun q hq => ?_⟩
  · rw [h.paging]
  · rw [h.paging]
  · rw [h.paging]
  · rw [h.live] at hq
    rw [Set.mem_singleton_iff.mp hq]
    exact root

/-! ## One kernel half -/

/-- The entry of the PML4 that `boot2.s` sets is present. -/
def KernelEntryPresent (s : Spaces) (r : Nat) : Prop := link (s.mem.tables r 256) ≠ none

/-- The addresses behind the entry 256. -/
def KernelRange (v : U64) : Prop :=
  virtualMemoryBarrier.toNat ≤ v.toNat ∧ v.toNat < virtualMemoryBarrier.toNat + 2 ^ 39

theorem pageWalk_of_range (range : KernelRange v) (same : m.tables r 256 = m.tables r' 256) :
    pageWalk m r (extractPageEntries v) = pageWalk m r' (extractPageEntries v) := by
  have barrier : virtualMemoryBarrier.toNat = 0xffff800000000000 := rfl
  have index : (extractPageEntries v).pml4Entry.toNat = 256 := by
    obtain ⟨low, high⟩ := range
    rw [barrier] at low high
    have bound := v.isLt
    rw [extractPageEntries, index_toNat]
    omega
  change m.ram r 256 = m.ram r' 256 at same
  unfold pageWalk
  rw [index, same]

/-- All PML4s in use have one entry 256. -/
theorem one_kernel_entry (h : Reachable (spaceSystem KernelEntryPresent) Supplied s) :
    ∃ θ x, SpacesSound (fun _ _ _ => True) θ s ∧ link x ≠ none ∧
      ∀ r ∈ s.live, s.mem.tables r 256 = x := by
  have admits : Admits (fun _ _ _ => True) := ⟨fun _ _ => trivial, fun _ _ _ => trivial⟩
  have upper : kernelHalf 256 := Nat.le_refl 256
  induction h with
  | init start =>
    obtain ⟨r, one, present⟩ := start
    obtain ⟨θ, sound⟩ := one.sound
    refine ⟨θ, _, one.spacesSound sound, present, fun q hq => ?_⟩
    rw [one.live] at hq
    rw [Set.mem_singleton_iff.mp hq]
  | @step s t call _ supplied hs ih =>
    obtain ⟨θ, x, sound, present, entry⟩ := ih
    obtain ⟨θ', sound', kept⟩ := sound.step admits supplied hs
    have old {q : Nat} (hq : q ∈ s.live) (hq' : q ∈ t.live) : t.mem.tables q 256 = x := by
      rw [kept.links q hq hq' 256 upper (by rw [entry q hq]; exact present), entry q hq]
    refine ⟨θ', x, sound', present, fun q hq => ?_⟩
    by_cases before : q ∈ s.live
    · exact old before hq
    · obtain ⟨q₀, hq₀, hq₀', copy⟩ := kept.copies q hq before
      rw [copy 256 upper, old hq₀ hq₀']

/-- In every state reached any two live address spaces lead from an address of the kernel range to
the same page-table entry and the same frame. -/
theorem kernel_half_shared (h : Reachable (spaceSystem KernelEntryPresent) Supplied s)
    (hr : r ∈ s.live) (hr' : r' ∈ s.live) (range : KernelRange v) :
    pageWalk s.mem r (extractPageEntries v) = pageWalk s.mem r' (extractPageEntries v) ∧
      translate (memSetCr3 s.mem (physOf r)) v = translate (memSetCr3 s.mem (physOf r')) v := by
  obtain ⟨θ, x, sound, -, entry⟩ := one_kernel_entry h
  have walks := pageWalk_of_range range ((entry r hr).trans (entry r' hr').symm)
  refine ⟨walks, ?_⟩
  have found {q : Nat} (hq : q ∈ s.live) : translate (memSetCr3 s.mem (physOf q)) v =
      (pageWalk s.mem q (extractPageEntries v)).bind fun slot => link (s.mem.entry slot) := by
    change (pageWalk s.mem (frameOf (physOf q)) _).bind _ = _
    rw [sound.frame hq]
    rfl
  rw [found hr, found hr', walks]

/-! ## Page tables at boot

The PML4 in frame 1, and behind its entry 256 an empty PDPT in frame 2. -/

def bootTables : Memory where
  ram f i := if f = 1 ∧ i = 256 then 0x2003 else 0
  physFrames f := if f < 3 then ⟨0, 0b101⟩ else ⟨0, 0⟩
  totalMem := 0x10000
  availableMem := 0x10000
  physicalPagesUsed := 0
  virtualMemorySize := 32
  paging := ⟨0x1000, 0x1000, 0x1000⟩

def bootKinds : Kinds := fun t =>
  if t = 1 then some .pml4 else if t = 2 then some (.pdpt true) else none

theorem bootTables_zero {t : Nat} {i : Fin 512} (h : ¬(t = 1 ∧ i = 256)) :
    bootTables.tables t i = 0 := if_neg fun h' => h ⟨h'.1, Fin.ext h'.2⟩

theorem bootTables_sound : Sound (fun _ _ _ => True) bootKinds bootTables := by
  have frames {t : Nat} {k : TableKind} (ht : bootKinds t = some k) : t = 1 ∨ t = 2 := by
    unfold bootKinds at ht
    split_ifs at ht with one two
    · exact .inl one
    · exact .inr two
  refine ⟨fun t k ht i c hc => ⟨trivial, fun n hn => ?_⟩, fun t k ht => ?_, fun t k ht => ?_,
    by decide, rfl⟩
  · by_cases word : t = 1 ∧ i = 256
    · obtain ⟨rfl, rfl⟩ := word
      cases ht
      cases hc
      obtain rfl : n = 2 := (Option.some.inj hn).symm
      rfl
    · rw [bootTables_zero word] at hn
      cases hn
  · rcases frames ht with rfl | rfl <;> decide
  · rcases frames ht with rfl | rfl <;> decide

/-- One address space. -/
def bootSpaces : Spaces := ⟨bootTables, {1}⟩

theorem bootSpaces_one : OneSpace bootSpaces 1 :=
  ⟨⟨_, bootTables_sound⟩, by decide, rfl, rfl⟩

/-- The pages of the kernel task start at the barrier. -/
def bootKernelTask : TaskMemoryDefinition := ⟨virtualMemoryBarrier, 0, 0, 0, 0, 0, 0⟩

theorem bootSpaces_supplied : Supplied bootSpaces (.createUserMemory bootKernelTask) := by
  refine ⟨?_, by decide⟩
  exact (by decide +kernel : MallocTakes HasFrame bootTables bootKernelTask)

theorem bootSpaces_creates : ∃ m t a, createUserMemory bootTables bootKernelTask = some (m, t, a) ∧
    SpaceStep bootSpaces (.createUserMemory bootKernelTask) ⟨m, {frameOf a, 1}⟩ := by
  have created : (createUserMemory bootTables bootKernelTask).isSome = true := by decide +kernel
  obtain ⟨⟨m, t, a⟩, created⟩ := Option.isSome_iff_exists.mp created
  exact ⟨m, t, a, created, .createUserMemory created⟩

theorem kernel_half_shared_boot : ∃ m t a,
    createUserMemory bootTables bootKernelTask = some (m, t, a) ∧
      pageWalk m 1 (extractPageEntries 0xffff800000001000) =
        pageWalk m (frameOf a) (extractPageEntries 0xffff800000001000) ∧
      translate (memSetCr3 m (physOf 1)) 0xffff800000001000 =
        translate (memSetCr3 m (physOf (frameOf a))) 0xffff800000001000 := by
  obtain ⟨m, t, a, created, step⟩ := bootSpaces_creates
  have start : (spaceSystem KernelEntryPresent).init bootSpaces := by
    refine ⟨1, bootSpaces_one, ?_⟩
    rw [KernelEntryPresent]
    decide
  exact ⟨m, t, a, created, kernel_half_shared (.step (.init start) bootSpaces_supplied step)
    (.inr rfl) (.inl rfl) ⟨by decide, by decide⟩⟩

/-! ## The bit U/S -/

/-- The entries of the PML4 for the kernel half have U/S clear, and links of the lower half have it
set. -/
def userGuard : Guard
  | .pml4, i, x =>
    if kernelHalf i then x.getLsbD 2 = false else link x ≠ none → x.getLsbD 2 = true
  | .pdpt kernel, _, x => kernel = false → link x ≠ none → x.getLsbD 2 = true
  | .pd kernel, _, x => kernel = false → link x ≠ none → x.getLsbD 2 = true
  | .pt _, _, _ => True

theorem tableEntry_user (n : Nat) (kernel : Bool) :
    (physOf n ||| (tableFlags kernel).setWidth 64 ||| 1).getLsbD 2 = !kernel := by
  have aligned : (physOf n).getLsbD 2 = false := by
    have bit : n * 0x1000 / 2 ^ 2 % 2 = 0 := by omega
    rw [physOf, BitVec.getLsbD_ofNat, Nat.testBit_eq_decide_div_mod_eq, bit]
    rfl
  have flags : ((tableFlags kernel).setWidth 64 : U64).getLsbD 2 = !kernel := by
    cases kernel <;> decide
  rw [BitVec.getLsbD_or, BitVec.getLsbD_or, aligned, flags]
  cases kernel <;> decide

theorem userGuard_admits : Admits userGuard where
  zero k i := by
    cases k with
    | pml4 =>
      by_cases upper : kernelHalf i
      · simp only [userGuard, upper, if_true]
        decide
      · simp only [userGuard, upper, if_false]
        exact fun h => absurd link_zero h
    | pdpt kernel => exact fun _ h => absurd link_zero h
    | pd kernel => exact fun _ h => absurd link_zero h
    | pt kernel => trivial
  table k i n := by
    have bit := tableEntry_user n (k.half i)
    cases k with
    | pml4 =>
      by_cases upper : kernelHalf i
      · simp only [userGuard, upper, if_true]
        rw [bit]
        simp [TableKind.half, upper]
      · simp only [userGuard, upper, if_false]
        intro _
        rw [bit]
        simp [TableKind.half, upper]
    | pdpt kernel =>
      rintro rfl _
      exact bit
    | pd kernel =>
      rintro rfl _
      exact bit
    | pt kernel => trivial

/-- The state that `InitMem` leaves. -/
structure KernelOnly (s : Spaces) (r : Nat) : Prop where
  lower : ∀ i, ¬kernelHalf i → link (s.mem.tables r i) = none
  upper : ∀ i, kernelHalf i → (s.mem.tables r i).getLsbD 2 = false

/-- The kinds of the root and of the tables in the kernel half. -/
def kernelKinds (θ : Kinds) (r : Nat) : Kinds := fun t =>
  (θ t).filter fun k => t = r || k = .pdpt true || k = .pd true || k = .pt true

theorem kernelKinds_eq_some {k : TableKind} {t : Nat} : kernelKinds θ r t = some k ↔
    θ t = some k ∧ (t = r ∨ k = .pdpt true ∨ k = .pd true ∨ k = .pt true) := by
  simp [kernelKinds, Option.filter_eq_some_iff, or_assoc]

/-- With an empty lower half the page tables are guarded. -/
theorem KernelOnly.sound (start : KernelOnly s r) (hm : Sound (fun _ _ _ => True) θ s.mem)
    (hr : frameOf s.mem.paging.pml4Physical = r) :
    Sound userGuard (kernelKinds θ r) s.mem := by
  have root := hm.root
  rw [hr] at root
  refine ⟨fun t k ht i c hc => ?_, fun t k ht => hm.owned t k (kernelKinds_eq_some.mp ht).1,
    fun t k ht => hm.inMemory t k (kernelKinds_eq_some.mp ht).1, hm.small, ?_⟩
  · obtain ⟨kind, here⟩ := kernelKinds_eq_some.mp ht
    have target {n : Nat} (hn : link (s.mem.tables t i) = some n) := hm.typed.link kind hc hn
    rcases here with rfl | rfl | rfl | rfl
    · obtain rfl := Option.some.inj (root.symm.trans kind)
      cases hc
      by_cases upper : kernelHalf i
      · refine ⟨?_, fun n hn => kernelKinds_eq_some.mpr ⟨target hn, ?_⟩⟩
        · show userGuard .pml4 i _
          simp only [userGuard, upper, if_true]
          exact start.upper i upper
        · simp [upper]
      · have absent := start.lower i upper
        refine ⟨?_, fun n hn => ?_⟩
        · show userGuard .pml4 i _
          simp only [userGuard, upper, if_false]
          exact fun h => absurd absent h
        · exact absurd (hn.symm.trans absent) (Option.some_ne_none n)
    · cases hc
      exact ⟨nofun, fun n hn => kernelKinds_eq_some.mpr ⟨target hn, by simp⟩⟩
    · cases hc
      exact ⟨nofun, fun n hn => kernelKinds_eq_some.mpr ⟨target hn, by simp⟩⟩
    · cases hc
  · rw [hr]
    exact kernelKinds_eq_some.mpr ⟨root, .inl rfl⟩

/-! ## Walks in user mode -/

/-- The entries that a walk reads, from the table `t` on. -/
def walkEntries (m : Memory) (t : Nat) : List (Fin 512) → List U64
  | [] => []
  | i :: path => m.tables t i ::
      match link (m.tables t i) with
      | none => []
      | some u => walkEntries m u path

/-- The indices of an address, the last one included. -/
def indices (v : U64) : List (Fin 512) := pathOf v ++ [leafIndex v]

/-- A walk in user mode into the kernel half meets an entry with U/S clear; one to a page of the lower
half that is mapped with U/S set meets no other entries. -/
structure Guarded (m : Memory) (r : Nat) : Prop where
  kernel : ∀ v, virtualMemoryBarrier ≤ v → ∃ e ∈ walkEntries m r (indices v), e.getLsbD 2 = false
  user : ∀ v : U64, v.toNat < 2 ^ 47 → ∀ e, m.wordAt r (pathOf v) (leafIndex v) = some e →
    link e ≠ none → e.getLsbD 2 = true → ∀ x ∈ walkEntries m r (indices v), x.getLsbD 2 = true

theorem Sound.guarded (hm : Sound userGuard θ m) (hr : θ r = some .pml4) : Guarded m r := by
  constructor
  · intro v high
    obtain ⟨a, b, c, -, hpath, -, ha, -, -, -⟩ := walk_indices v
    have upper : kernelHalf a := by
      have half := halfOf_of_le high
      simpa only [halfOf, kernelHalf, ← ha, extractPageEntries, index_toNat, decide_eq_true_eq]
        using half
    have closed := hm.typed.guard hr (i := a) rfl
    change userGuard .pml4 a _ at closed
    simp only [userGuard, upper, if_true] at closed
    rw [indices, hpath]
    exact ⟨_, List.mem_cons_self, closed⟩
  · intro v low e found present open_ x hx
    obtain ⟨a, b, c, d, hpath, hleaf, ha, -, -, -⟩ := walk_indices v
    have lower : ¬kernelHalf a := by
      rw [kernelHalf, ← ha, extractPageEntries, index_toNat]
      omega
    rw [hpath, hleaf, Memory.wordAt_eq, Option.map_eq_some_iff] at found
    obtain ⟨t₃, h₃, rfl⟩ := found
    obtain ⟨t₂, h₂, link₃⟩ := RadixTree.tableAt_concat_eq_some (p := [a, b]).mp h₃
    obtain ⟨t₁, h₁, link₂⟩ := RadixTree.tableAt_concat_eq_some (p := [a]).mp h₂
    obtain ⟨t₀, h₀, link₁⟩ := RadixTree.tableAt_concat_eq_some (p := []).mp h₁
    obtain rfl := Option.some.inj h₀
    have kind₁ : θ t₁ = some (.pdpt false) := hm.typed.link hr
      (congrArg (fun b => some (TableKind.pdpt b)) (decide_eq_false lower)) link₁
    have kind₂ : θ t₂ = some (.pd false) := hm.typed.link kind₁ rfl link₂
    have guard₁ : userGuard .pml4 a (m.tables r a) := hm.typed.guard hr rfl
    simp only [userGuard, lower, if_false] at guard₁
    have guard₂ : userGuard (.pdpt false) b (m.tables t₁ b) := hm.typed.guard kind₁ rfl
    have guard₃ : userGuard (.pd false) c (m.tables t₂ c) := hm.typed.guard kind₂ rfl
    have linked {e : U64} {t : Nat} (h : link e = some t) : link e ≠ none := by
      rw [h]
      exact Option.some_ne_none t
    rw [indices, hpath, hleaf] at hx
    simp only [List.cons_append, List.nil_append, walkEntries, link₁, link₂, link₃, List.mem_cons]
      at hx
    rcases hx with rfl | rfl | rfl | rfl | hx
    · exact guard₁ (linked link₁)
    · exact guard₂ rfl (linked link₂)
    · exact guard₃ rfl (linked link₃)
    · exact open_
    · split at hx <;> cases hx

theorem spaces_guarded (h : Reachable (spaceSystem KernelOnly) Supplied s) :
    ∃ θ, SpacesSound userGuard θ s := by
  induction h with
  | init start =>
    obtain ⟨r, one, start⟩ := start
    obtain ⟨θ, sound⟩ := one.sound
    refine ⟨_, one.spacesSound (start.sound sound ?_)⟩
    rw [one.paging]
    exact frameOf_physOf one.frame
  | step _ supplied hs ih =>
    obtain ⟨θ, sound⟩ := ih
    obtain ⟨θ', sound', -⟩ := sound.step userGuard_admits supplied hs
    exact ⟨θ', sound'⟩

/-- In every state reached the kernel half of every live address space is closed to user programs,
and their own pages are open to them. -/
theorem kernel_half_guarded (h : Reachable (spaceSystem KernelOnly) Supplied s) (hr : r ∈ s.live) :
    Guarded s.mem r := by
  obtain ⟨θ, sound⟩ := spaces_guarded h
  exact sound.sound.guarded (sound.roots r hr)

theorem kernel_half_guarded_boot : ∃ m t a,
    createUserMemory bootTables bootKernelTask = some (m, t, a) ∧ Guarded m (frameOf a) := by
  obtain ⟨m, t, a, created, step⟩ := bootSpaces_creates
  have start : KernelOnly bootSpaces 1 := by
    refine ⟨fun i lower => ?_, fun i _ => ?_⟩
    · have other : i ≠ 256 := by
        rintro rfl
        exact lower (Nat.le_refl 256)
      rw [show bootSpaces.mem.tables 1 i = 0 from bootTables_zero fun h => other h.2]
      exact link_zero
    · by_cases here : i = 256
      · subst here
        decide
      · rw [show bootSpaces.mem.tables 1 i = 0 from bootTables_zero fun h => here h.2]
        decide
  exact ⟨m, t, a, created, kernel_half_guarded
    (.step (.init ⟨1, bootSpaces_one, start⟩) bootSpaces_supplied step) (.inl rfl)⟩

end ChudOS
