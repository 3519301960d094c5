import ChudOS.LowLevel.TableKinds

/-!
# The memory functions keep the kinds of the page tables

One lemma for each function of `Memory.c`, for all addresses, frames and flags it may be called
with. The condition on each is that `FindNextFreePhysical` returns a frame whenever the function
calls it.
-/

namespace ChudOS

open Memory TypedMemory

variable {guard : Guard} {θ θ' : Kinds} {m m' : Memory} {t n pt f : Nat} {k c : TableKind}
  {i : Fin 512} {b : Bool} {v a : U64} {page : PageDetails} {d d' : TaskMemoryDefinition}

/-! ## Calls that take a frame

Each says that the function calls `FindNextFreePhysical` in states with `P` only. -/

section Takes

variable (P : Memory → Prop)

def AllocTakes (m : Memory) (page : PageDetails) : Prop :=
  allocRefused m page = false →
    WalkTakes P (countReference m page) (extractPageEntries page.virtualAddress)

def AllocNoInvlpgTakes (m : Memory) (page : PageDetails) : Prop :=
  (m.physFrames (frameOf page.physicalAddress)).flags &&& 0b10 ≠ 0b10 →
    WalkTakes P (countReferenceNoInvlpg m page) (extractPageEntries page.virtualAddress)

def FreeTakes (m : Memory) (page : PageDetails) : Prop :=
  freeOutOfBounds m page.virtualAddress = false →
    WalkTakes P (dropReference m page.physicalAddress) (extractPageEntries page.virtualAddress)

def MallocTakes (m : Memory) (d : TaskMemoryDefinition) : Prop :=
  P m ∧
    AllocTakes P (m.setFlags (frameOf (findNextFreePhysical m)) 0b101)
      ⟨⟨kernelFlags, true⟩, nextPageAddress d, findNextFreePhysical m⟩

instance [DecidablePred P] (m : Memory) (page : PageDetails) : Decidable (AllocTakes P m page) :=
  inferInstanceAs (Decidable (_ → _))

instance [DecidablePred P] (m : Memory) (d : TaskMemoryDefinition) : Decidable (MallocTakes P m d) :=
  inferInstanceAs (Decidable (_ ∧ _))

def PhysAddrTakes (m : Memory) (pointer : U64) : Prop :=
  WalkTakes P m (extractPageEntries (pointer &&& ~~~0xFFF))

def FreeTableTakes (m : Memory) (table physicalAddress : U64) : Prop :=
  FreeTakes P m ⟨⟨0, false⟩, table + virtualMemoryBarrier, physicalAddress⟩

def ClearPDTakes (fuel : Nat) (m : Memory) (pd : Nat) : Prop :=
  match fuel with
  | 0 => True
  | fuel + 1 =>
    let i := findFirstPresent m pd
    let pt := pteAddr (m.ram pd i)
    i < 512 → FreeTableTakes P m pt pt ∧
      ClearPDTakes fuel ((freeTable m pt pt).setEntry (pd, i) 0) pd

def ClearPDPTTakes (fuel : Nat) (m : Memory) (pdpt : Nat) : Prop :=
  match fuel with
  | 0 => True
  | fuel + 1 =>
    let i := findFirstPresent m pdpt
    let pd := pteAddr (m.ram pdpt i)
    i < 512 → ClearPDTakes P fuel m (frameOf pd) ∧ ∀ m₁, clearPD fuel m (frameOf pd) = some m₁ →
      FreeTableTakes P m₁ pd (pteAddr (m₁.ram pdpt i)) ∧
        ClearPDPTTakes fuel
          ((freeTable m₁ pd (pteAddr (m₁.ram pdpt i))).setEntry (pdpt, i) 0) pdpt

def ClearPML4Takes (fuel : Nat) (m : Memory) (pml4 : Nat) : Prop :=
  match fuel with
  | 0 => True
  | fuel + 1 =>
    let i := findFirstPresent m pml4
    let pdpt := pteAddr (m.ram pml4 i)
    i < 256 → ClearPDPTTakes P fuel m (frameOf pdpt) ∧
      ∀ m₁, clearPDPT fuel m (frameOf pdpt) = some m₁ →
        FreeTableTakes P m₁ pdpt (pteAddr (m₁.ram pml4 i)) ∧
          ClearPML4Takes fuel
            ((freeTable m₁ pdpt (pteAddr (m₁.ram pml4 i))).setEntry (pml4, i) 0) pml4

def TeardownTakes (fuel : Nat) (m : Memory) (pml4 : U64) : Prop :=
  let m := memSetCr3 m pml4
  ClearPML4Takes P fuel m (frameOf pml4) ∧ ∀ m₁, clearPML4 fuel m (frameOf pml4) = some m₁ →
    let m := (memSetCr3 m₁ m₁.paging.kernelPML4Physical).zeroFrame (frameOf pml4)
    let (m₂, physicalAddress) := physAddr m (pml4 + virtualMemoryBarrier)
    PhysAddrTakes P m (pml4 + virtualMemoryBarrier) ∧ FreeTableTakes P m₂ pml4 physicalAddress

end Takes

/-! ## Pages -/

/-- A walk and an entry in the page table it ends in. -/
theorem walkEntry_evolves (hg : Admits guard) (hm : Sound guard θ m) (v x : U64)
    (finds : WalkTakes HasFrame m (extractPageEntries v)) :
    ∃ θ' pt, Evolves guard ∅ θ m θ'
        ((calculatePagePhysicalEntryAddress m (extractPageEntries v)).1.setEntry
          (calculatePagePhysicalEntryAddress m (extractPageEntries v)).2 x) ∧
      (halfOf v = true →
        ((calculatePagePhysicalEntryAddress m (extractPageEntries v)).1.setEntry
          (calculatePagePhysicalEntryAddress m (extractPageEntries v)).2 x).tableAt
            (frameOf m.paging.pml4Physical) (pathOf v) = some pt) ∧
      ((calculatePagePhysicalEntryAddress m (extractPageEntries v)).1.setEntry
          (calculatePagePhysicalEntryAddress m (extractPageEntries v)).2 x).tables pt
            (leafIndex v) = x := by
  obtain ⟨θ₁, m₁, pt, walk, ev, kind, table⟩ := walk_evolves hg hm v finds
  have written := setEntry_evolves ev.sound kind (leafIndex v) x
  rw [walk]
  refine ⟨θ₁, pt, ev.trans written, fun kernel => ?_, ?_⟩
  · exact written.tableAt ev.sound (ev.kinds _ _ hm.root) kernel (table kernel)
  · rw [tables_setEntry, RadixTree.write_self]

theorem countReference_evolves (hm : Sound guard θ m) (accepted : allocRefused m page = false) :
    Evolves guard ∅ θ m θ (countReference m page) :=
  .of_ram hm (countReference_ram m page) (countReference_marks accepted).toKeepsOwned
    (countReference_layout m page).1

theorem allocPage_evolves (hg : Admits guard) (hm : Sound guard θ m)
    (finds : AllocTakes HasFrame m page) (h : allocPage m page = some (m', a)) : ∃ θ', Evolves guard ∅ θ m θ' m' := by
  obtain ⟨-, ⟨-, rfl, -⟩ | ⟨accepted, -, rfl⟩⟩ := allocPage_cases h
  · exact ⟨θ, .refl hm⟩
  · have counted := countReference_evolves hm accepted
    obtain ⟨θ', pt, ev, -, -⟩ := walkEntry_evolves hg counted.sound page.virtualAddress
      (pageEntry page) (finds accepted)
    exact ⟨θ', counted.trans ev⟩

theorem countReferenceNoInvlpg_evolves (hm : Sound guard θ m) (page : PageDetails) :
    Evolves guard ∅ θ m θ (countReferenceNoInvlpg m page) := by
  unfold countReferenceNoInvlpg
  dsimp only
  split_ifs
  · have marked : Evolves guard ∅ θ m θ (memSetBit m page.physicalAddress) :=
      .of_ram hm rfl (memSetBit_marks m _).toKeepsOwned rfl
    exact marked.trans (.of_ram marked.sound rfl (.setFrame id) rfl)
  · exact .of_ram hm rfl (.setFrame id) rfl
  · exact .refl hm

theorem allocPageNoInvlpg_layout (h : allocPageNoInvlpg m page = some (m', a)) : SameLayout m m' := by
  have counted : SameLayout m (countReferenceNoInvlpg m page) := by
    unfold countReferenceNoInvlpg
    dsimp only
    split_ifs <;> exact ⟨rfl, rfl, rfl⟩
  unfold allocPageNoInvlpg at h
  split_ifs at h
  · cases h
    exact .refl
  · cases h
    exact (counted.trans (calculatePagePhysicalEntryAddress_layout _ _)).trans ⟨rfl, rfl, rfl⟩

theorem allocPageNoInvlpg_evolves (hg : Admits guard) (hm : Sound guard θ m)
    (finds : AllocNoInvlpgTakes HasFrame m page) (h : allocPageNoInvlpg m page = some (m', a)) :
    ∃ θ', Evolves guard ∅ θ m θ' m' := by
  unfold allocPageNoInvlpg at h
  split_ifs at h with above dirty
  · cases h
    exact ⟨θ, .refl hm⟩
  · cases h
    have counted := countReferenceNoInvlpg_evolves hm page
    obtain ⟨θ', pt, ev, -, -⟩ := walkEntry_evolves hg counted.sound page.virtualAddress
      (pageEntry page) (finds fun eq => dirty (beq_iff_eq.mpr eq))
    exact ⟨θ', counted.trans ev⟩

theorem freePage_evolves (hg : Admits guard) (hm : Sound guard θ m)
    (finds : FreeTakes HasFrame m page) : ∃ θ', Evolves guard ∅ θ m θ' (freedPage m page) := by
  unfold freedPage freePage
  split_ifs with outside
  · exact ⟨θ, .refl hm⟩
  · have dropped : Evolves guard ∅ θ m θ (dropReference m page.physicalAddress) :=
      .of_ram hm (dropReference_ram m _) (dropReference_owned m _) (dropReference_layout m _).1
    obtain ⟨θ', pt, ev, -, -⟩ := walkEntry_evolves hg dropped.sound page.virtualAddress 0
      (finds (by simpa using outside))
    exact ⟨θ', dropped.trans ev⟩

theorem physAddr_evolves (hg : Admits guard) (hm : Sound guard θ m)
    (finds : PhysAddrTakes HasFrame m v) : ∃ θ', Evolves guard ∅ θ m θ' (physAddr m v).1 := by
  obtain ⟨θ', m', pt, walk, ev, -, -⟩ := walk_evolves hg hm (v &&& ~~~0xFFF) finds
  unfold physAddr
  rw [walk]
  exact ⟨θ', ev⟩

/-! ## Pages for the kernel -/

theorem mallocSpecific_evolves {p : PagePermissions} (hg : Admits guard) (hm : Sound guard θ m)
    (finds : AllocTakes HasFrame m ⟨p, nextPageAddress d, v⟩)
    (h : mallocSpecific m d v p = some (m', d', a)) : ∃ θ', Evolves guard ∅ θ m θ' m' := by
  unfold mallocSpecific at h
  simp only [Option.bind_eq_bind, Option.bind_eq_some_iff, Prod.exists] at h
  obtain ⟨m₁, b, allocated, h⟩ := h
  obtain ⟨θ', ev⟩ := allocPage_evolves hg hm finds allocated
  split at h <;> (cases h; exact ⟨θ', ev⟩)

theorem setFlags_evolves (hm : Sound guard θ m) (f : Nat) :
    Evolves guard ∅ θ m θ (m.setFlags f 0b101) :=
  .of_ram hm rfl (KeepsMarks.five f).toKeepsOwned rfl

theorem malloc_evolves (hg : Admits guard) (hm : Sound guard θ m) (finds : MallocTakes HasFrame m d)
    (h : malloc m d = some (m', d', a)) : ∃ θ', Evolves guard ∅ θ m θ' m' := by
  have marks := malloc_marks h
  obtain ⟨m₁, allocated, ⟨rfl, -, rfl⟩ | ⟨-, -, rfl⟩⟩ := malloc_cases h
  · obtain rfl := malloc_refused ⟨⟨kernelFlags, true⟩, _, findNextFreePhysical m⟩ allocated
    exact ⟨θ, .of_ram hm rfl marks.toKeepsOwned rfl⟩
  · have marked := setFlags_evolves hm (frameOf (findNextFreePhysical m))
    obtain ⟨θ', ev⟩ := allocPage_evolves hg marked.sound finds.2 allocated
    exact ⟨θ', (marked.trans ev).trans (setFlags_evolves ev.sound _)⟩

/-- The page of `a` is mapped on the frame `n`, which is the kernel's and no page table. -/
structure MappedPage (θ : Kinds) (m : Memory) (a : U64) (n : Nat) : Prop where
  untyped : θ n = none
  nonzero : n ≠ 0
  owned : m.owned n = true
  inMemory : n < frameCount m
  mapped : ∃ pt, m.tableAt (frameOf m.paging.pml4Physical) (pathOf a) = some pt ∧
    link (m.tables pt (leafIndex a)) = some n

theorem halfOf_of_le (hv : virtualMemoryBarrier ≤ v) : halfOf v = true := by
  have barrier : virtualMemoryBarrier.toNat = 0xffff800000000000 := rfl
  have bound := v.isLt
  rw [BitVec.le_def, barrier] at hv
  exact decide_eq_true (by omega)

/-- What `malloc` does above the barrier. -/
theorem malloc_mapped (hg : Admits guard) (hm : Sound guard θ m)
    (high : virtualMemoryBarrier ≤ nextPageAddress d) (finds : MallocTakes HasFrame m d)
    (h : malloc m d = some (m', d', a)) :
    a = nextPageAddress d ∧ ∃ θ' n, m.Free n ∧ Evolves guard ∅ θ m θ' m' ∧
      MappedPage θ' m' a n := by
  obtain ⟨n, nonzero, bound, free, phys⟩ := found_free hm.small finds.1
  have frame : frameOf (findNextFreePhysical m) = n := by rw [phys, frameOf_physOf (by omega)]
  have layout := malloc_layout h
  have marked := setFlags_evolves hm n
  have accepted := mallocPage_accepted (m := m) high (show n < 2 ^ 52 by omega)
  have owned : (m.setFlags n 0b101).owned n = true := by
    rw [Memory.owned, setFlags_physFrames, if_pos rfl]
    exact (by decide : ((0b101 : U8) &&& 0b100 != 0) = true)
  have uncounted : countReference (m.setFlags n 0b101) (mallocPage d n) = m.setFlags n 0b101 := by
    unfold countReference
    dsimp only
    exact if_neg (BitVec.not_lt.mpr high)
  have walkFinds := finds.2
  rw [frame, phys] at walkFinds
  replace walkFinds := walkFinds accepted
  change WalkTakes HasFrame (countReference (m.setFlags n 0b101) (mallocPage d n)) _ at walkFinds
  rw [uncounted] at walkFinds
  obtain ⟨θ', pt, ev, table, word⟩ := walkEntry_evolves hg marked.sound
    (mallocPage d n).virtualAddress (pageEntry (mallocPage d n)) walkFinds
  obtain ⟨m₁, allocated, result⟩ := malloc_cases h
  rw [frame, phys] at allocated
  change allocPage (m.setFlags n 0b101) (mallocPage d n) = _ at allocated
  obtain ⟨-, ⟨refused, -, -⟩ | ⟨-, rfl, same⟩⟩ := allocPage_cases allocated
  · exact absurd (accepted.symm.trans refused) Bool.false_ne_true
  rw [uncounted] at same
  rw [← same] at ev table word
  rw [frame] at result
  obtain ⟨zero, -⟩ | ⟨-, -, rfl⟩ := result
  · rw [show nextPageAddress d = 0 from zero] at high
    exact absurd high (by decide)
  have again := setFlags_evolves ev.sound n
  have inMemory : n < frameCount (m₁.setFlags n 0b101) := by
    unfold frameCount
    rw [layout.2.1]
    exact free.1
  refine ⟨rfl, θ', n, free, (marked.trans ev).trans again, ?_, nonzero, ?_, inMemory, pt, ?_, ?_⟩
  · by_contra typed
    have unowned := ev.fresh n (hm.untyped free) typed
    rw [owned] at unowned
    cases unowned
  · exact again.owned.owned n nonzero (ev.owned.owned n nonzero owned)
  · rw [layout.1]
    exact table (halfOf_of_le high)
  · exact (congrArg link word).trans (mallocPage_link (by omega))

/-! ## A new address space -/

/-- A PML4 in a page of the kernel, with the kernel half of the current one. -/
theorem Evolves.withSpace (hg : Admits guard) (ev : Evolves guard ∅ θ m θ' m') (free : m.Free n)
    (page : MappedPage θ' m' a n) :
    Evolves guard ∅ θ m (Function.update θ' n (some .pml4)) (withSpace m' n) := by
  have hm := ev.sound
  have distinct : frameOf m'.paging.pml4Physical ≠ n := by
    rintro same
    have root := hm.root
    rw [same, page.untyped] at root
    cases root
  have tables := withSpace_tables distinct
  have kinds := KeepsKinds.update page.untyped TableKind.pml4
  have old {u : Nat} {k : TableKind} (hu : Function.update θ' n (some .pml4) u = some k) :
      u = n ∨ θ' u = some k := by
    by_cases new : u = n
    · exact .inl new
    · rw [Function.update_of_ne new] at hu
      exact .inr hu
  refine ⟨ev.kinds.trans kinds, ⟨?_, fun u k hu => ?_, fun u k hu => ?_, hm.small,
    kinds _ _ hm.root⟩, ev.owned.trans (.of_frames rfl rfl), fun u hu hu' => ?_,
    fun u k hu off i kernel present => ?_⟩
  · rw [tables]
    refine hm.typed.add page.untyped (fun u hu => Function.update_of_ne hu _ _) fun i => ?_
    rw [Function.update_self]
    split_ifs with lower
    · exact .of_none (hg.zero .pml4 i) link_zero
    · exact (hm.typed _ _ hm.root i).mono kinds
  · rcases old hu with rfl | hu
    · exact ⟨page.nonzero, page.owned⟩
    · exact hm.owned u k hu
  · rcases old hu with rfl | hu
    · exact page.inMemory
    · exact hm.inMemory u k hu
  · obtain ⟨k, hk⟩ := Option.ne_none_iff_exists'.mp hu'
    rcases old hk with rfl | hk
    · by_contra kernel
      exact free.not_marked (Memory.marked_of_owned (by simpa using kernel))
    · exact ev.fresh u hu (by rw [hk]; exact Option.some_ne_none k)
  · rw [tables, Function.update_of_ne, ev.links u k hu off i kernel present]
    rintro rfl
    exact absurd (page.untyped.symm.trans (ev.kinds _ _ hu)) (Option.some_ne_none k).symm

/-- `Create_User_Memory` makes a PML4 that has the entries of the kernel half of the current one. -/
theorem createUserMemory_evolves (hg : Admits guard) (hm : Sound guard θ m)
    (selected : m.paging.cr3 = m.paging.pml4Physical)
    (high : virtualMemoryBarrier ≤ nextPageAddress d) (finds : MallocTakes HasFrame m d)
    (h : createUserMemory m d = some (m', d', a)) :
    ∃ θ', Evolves guard ∅ θ m θ' m' ∧ θ' (frameOf a) = some .pml4 ∧
      ∀ i, kernelHalf i →
        m'.tables (frameOf a) i = m'.tables (frameOf m.paging.pml4Physical) i := by
  obtain ⟨m₁, va, f, allocated, found, address⟩ := createUserMemory_cases h
  obtain ⟨rfl, θ₁, n, free, ev, page⟩ := malloc_mapped hg hm high finds allocated
  have layout := malloc_layout allocated
  have ev₂ := ev.withSpace hg free page
  obtain ⟨pt, table, word⟩ := page.mapped
  have frame : f = n := by
    rw [translate_eq, layout.1, selected, Memory.wordAt_eq, ← layout.1, table, Option.map_some,
      Option.bind_some, word] at found
    exact (Option.some.inj found).symm
  subst frame
  have distinct : frameOf m₁.paging.pml4Physical ≠ f := by
    rintro same
    exact absurd (page.untyped.symm.trans (same ▸ ev.sound.root)) (Option.some_ne_none _).symm
  have kept : (withSpace m₁ f).tableAt (frameOf m₁.paging.pml4Physical)
      (pathOf (nextPageAddress d)) = some pt ∧ θ₁ pt = some (.pt true) := by
    refine ev.sound.tableAt_of_links ev.sound.root (halfOf_of_le high) table fun u k hu i _ _ => ?_
    rw [withSpace_tables distinct, Function.update_of_ne]
    rintro rfl
    exact absurd (page.untyped.symm.trans hu) (Option.some_ne_none k).symm
  have walk := ev₂.sound.walk_present (v := nextPageAddress d &&& ~~~0xFFF)
    (by rw [pathOf_page]; exact kept.1)
  change physAddr (withSpace m₁ f) (nextPageAddress d) = (m', a) at address
  unfold physAddr at address
  rw [walk, leafIndex_page] at address
  obtain ⟨rfl, rfl⟩ := Prod.mk.inj address
  have other : pt ≠ f := by
    rintro rfl
    exact absurd (page.untyped.symm.trans kept.2) (Option.some_ne_none _).symm
  have entry : (withSpace m₁ f).tables pt (leafIndex (nextPageAddress d)) =
      m₁.tables pt (leafIndex (nextPageAddress d)) := by
    rw [withSpace_tables distinct, Function.update_of_ne other]
  have at_frame : pteFrame ((withSpace m₁ f).entry (pt, (leafIndex (nextPageAddress d)).val)) = f :=
    pteFrame_of_link (i := leafIndex (nextPageAddress d)) (by rw [entry, word])
  refine ⟨_, ev₂, ?_, fun i upper => ?_⟩
  · rw [frameOf_offset, at_frame, Function.update_self]
  · rw [frameOf_offset, at_frame, ← layout.1, withSpace_tables distinct, Function.update_self,
      Function.update_of_ne distinct, if_neg (Nat.not_lt.mpr upper)]

/-! ## Tear-down -/

theorem memSetCr3_evolves (hm : Sound guard θ m) (hv : θ (frameOf v) = some .pml4) :
    Evolves guard ∅ θ m θ (memSetCr3 m v) :=
  ⟨.refl, ⟨hm.typed, hm.owned, hm.inMemory, hm.small, hv⟩, .of_frames rfl rfl,
    fun _ h h' => absurd h h', fun _ _ _ _ _ _ _ => rfl⟩

theorem freeTable_evolves (hg : Admits guard) (hm : Sound guard θ m)
    (finds : FreeTableTakes HasFrame m v a) : ∃ θ', Evolves guard ∅ θ m θ' (freeTable m v a) :=
  freePage_evolves hg hm finds

theorem setEntry_layout (m : Memory) (s : Slot) (x : U64) : SameLayout m (m.setEntry s x) :=
  ⟨rfl, rfl, rfl⟩

/-- At the end of a turn the entry of the table is cleared. -/
theorem Evolves.clear {i : Nat} (ev : Evolves guard ∅ θ m θ' m') (hg : Admits guard)
    (ht : θ' t = some k) (inside : i < 512) (lower : ¬k.KernelLink ⟨i, inside⟩) :
    Evolves guard ∅ θ m θ' (m'.setEntry (t, i) 0) :=
  ev.trans (setEntry_zero_evolves (i := ⟨i, inside⟩) hg ev.sound ht lower)

/-- The innermost loop runs over a page directory of the lower half. -/
theorem clearPD_evolves {fuel pd : Nat} (hg : Admits guard) (hm : Sound guard θ m)
    (hpd : θ pd = some (.pd false)) (finds : ClearPDTakes HasFrame fuel m pd)
    (h : clearPD fuel m pd = some m') : ∃ θ', Evolves guard ∅ θ m θ' m' ∧ SameLayout m m' := by
  induction fuel generalizing m θ with
  | zero => cases h
  | succ fuel ih =>
    rw [clearPD] at h
    rw [ClearPDTakes] at finds
    dsimp only at h finds
    generalize findFirstPresent m pd = i at h finds
    split at h
    next inside =>
      obtain ⟨freeFinds, rest⟩ := finds inside
      obtain ⟨θ₁, freed⟩ := freeTable_evolves hg hm freeFinds
      have kind := freed.kinds _ _ hpd
      have cleared := freed.clear hg kind inside (by simp [TableKind.KernelLink])
      obtain ⟨θ₂, ev, layout⟩ := ih cleared.sound kind rest h
      exact ⟨θ₂, cleared.trans ev,
        ((freeTable_layout m _ _).trans (setEntry_layout _ _ _)).trans layout⟩
    next =>
      cases h
      exact ⟨θ, .refl hm, .refl⟩

theorem clearPDPT_evolves {fuel pdpt : Nat} (hg : Admits guard) (hm : Sound guard θ m)
    (hpdpt : θ pdpt = some (.pdpt false)) (finds : ClearPDPTTakes HasFrame fuel m pdpt)
    (h : clearPDPT fuel m pdpt = some m') : ∃ θ', Evolves guard ∅ θ m θ' m' ∧ SameLayout m m' := by
  induction fuel generalizing m θ with
  | zero => cases h
  | succ fuel ih =>
    rw [clearPDPT] at h
    rw [ClearPDPTTakes] at finds
    dsimp only at h finds
    generalize found : findFirstPresent m pdpt = i at h finds
    split at h
    next inside =>
      simp only [Option.bind_eq_bind, Option.bind_eq_some_iff] at h
      obtain ⟨m₁, h₁, h⟩ := h
      obtain ⟨below, after⟩ := finds inside
      obtain ⟨freeFinds, rest⟩ := after m₁ h₁
      have kind := hm.typed.link hpdpt rfl (findFirstPresent_link found inside)
      obtain ⟨θ₁, ev₁, layout₁⟩ := clearPD_evolves hg hm kind below h₁
      obtain ⟨θ₂, freed⟩ := freeTable_evolves hg ev₁.sound freeFinds
      have same := freed.kinds _ _ (ev₁.kinds _ _ hpdpt)
      have cleared := freed.clear hg same inside (by simp [TableKind.KernelLink])
      obtain ⟨θ₃, ev, layout⟩ := ih cleared.sound same rest h
      exact ⟨θ₃, (ev₁.trans cleared).trans ev,
        layout₁.trans (((freeTable_layout m₁ _ _).trans (setEntry_layout _ _ _)).trans layout)⟩
    next =>
      cases h
      exact ⟨θ, .refl hm, .refl⟩

theorem clearPML4_evolves {fuel pml4 : Nat} (hg : Admits guard) (hm : Sound guard θ m)
    (hroot : θ pml4 = some .pml4) (finds : ClearPML4Takes HasFrame fuel m pml4)
    (h : clearPML4 fuel m pml4 = some m') : ∃ θ', Evolves guard ∅ θ m θ' m' ∧ SameLayout m m' := by
  induction fuel generalizing m θ with
  | zero => cases h
  | succ fuel ih =>
    rw [clearPML4] at h
    rw [ClearPML4Takes] at finds
    dsimp only at h finds
    generalize found : findFirstPresent m pml4 = i at h finds
    split at h
    next lower =>
      simp only [Option.bind_eq_bind, Option.bind_eq_some_iff] at h
      obtain ⟨m₁, h₁, h⟩ := h
      obtain ⟨below, after⟩ := finds lower
      obtain ⟨freeFinds, rest⟩ := after m₁ h₁
      have user : ¬kernelHalf ⟨i, lower.trans (by decide)⟩ := Nat.not_le.mpr lower
      have kind := hm.typed.link hroot (congrArg (fun b => some (TableKind.pdpt b))
        (decide_eq_false user)) (findFirstPresent_link found (lower.trans (by decide)))
      obtain ⟨θ₁, ev₁, layout₁⟩ := clearPDPT_evolves hg hm kind below h₁
      obtain ⟨θ₂, freed⟩ := freeTable_evolves hg ev₁.sound freeFinds
      have same := freed.kinds _ _ (ev₁.kinds _ _ hroot)
      have cleared := freed.clear hg same (lower.trans (by decide)) user
      obtain ⟨θ₃, ev, layout⟩ := ih cleared.sound same rest h
      exact ⟨θ₃, (ev₁.trans cleared).trans ev,
        layout₁.trans (((freeTable_layout m₁ _ _).trans (setEntry_layout _ _ _)).trans layout)⟩
    next =>
      cases h
      exact ⟨θ, .refl hm, .refl⟩

theorem zeroFrame_evolves (hg : Admits guard) (hm : Sound guard θ m) (f : Nat) :
    Evolves guard {f} θ m θ (m.zeroFrame f) := by
  have tables {t : Nat} (ht : t ≠ f) : (m.zeroFrame f).tables t = m.tables t := by
    unfold Memory.tables zeroFrame
    dsimp only
    rw [Function.update_of_ne ht]
  refine ⟨.refl, ⟨hm.typed.of_fits fun t k ht i => ?_, hm.owned, hm.inMemory, hm.small, hm.root⟩,
    .of_frames rfl rfl, fun _ h h' => absurd h h', fun t k _ off i _ _ => ?_⟩
  · by_cases here : t = f
    · have zero : (m.zeroFrame f).tables t i = 0 := by simp [Memory.tables, zeroFrame, here]
      rw [zero]
      exact .inr (.of_none (hg.zero k i) link_zero)
    · exact .inl (congrFun (tables here) i)
  · exact congrFun (tables off) i

/-- The tear-down clears the root of the space; no other link of the kernel half is lost. -/
theorem teardown_evolves {fuel : Nat} {pml4 : U64} (hg : Admits guard) (hm : Sound guard θ m)
    (hroot : θ (frameOf pml4) = some .pml4)
    (kernel : θ (frameOf m.paging.kernelPML4Physical) = some .pml4)
    (finds : TeardownTakes HasFrame fuel m pml4) (h : teardown fuel m pml4 = some m') :
    ∃ θ', Evolves guard {frameOf pml4} θ m θ' m' ∧
      m'.paging = (memSetCr3 m m.paging.kernelPML4Physical).paging := by
  simp only [teardown, Option.bind_eq_bind, Option.bind_eq_some_iff] at h
  obtain ⟨m₁, h₁, h⟩ := h
  obtain rfl := Option.some.inj h
  obtain ⟨clearFinds, after⟩ := finds
  obtain ⟨addressFinds, freeFinds⟩ := after m₁ h₁
  have entered := memSetCr3_evolves hm hroot
  obtain ⟨θ₁, cleared, layout₁⟩ := clearPML4_evolves hg entered.sound hroot clearFinds h₁
  have paging : m₁.paging.kernelPML4Physical = m.paging.kernelPML4Physical := by
    rw [layout₁.1]
    rfl
  have left := memSetCr3_evolves cleared.sound (v := m₁.paging.kernelPML4Physical)
    (by rw [paging]; exact cleared.kinds _ _ kernel)
  have zeroed := zeroFrame_evolves hg left.sound (frameOf pml4)
  obtain ⟨θ₂, walked⟩ := physAddr_evolves hg zeroed.sound addressFinds
  obtain ⟨θ₃, freed⟩ := freeTable_evolves hg walked.sound freeFinds
  have none : (∅ : Set Nat) ⊆ {frameOf pml4} := Set.empty_subset _
  refine ⟨θ₃, ((((entered.trans cleared).trans left).mono none).trans zeroed).trans
    ((walked.trans freed).mono none), ?_⟩
  rw [(freeTable_layout _ _ _).1, (physAddr_layout _ _).1]
  show (memSetCr3 m₁ m₁.paging.kernelPML4Physical).paging = _
  rw [paging]
  unfold memSetCr3
  rw [layout₁.1]
  rfl

end ChudOS
