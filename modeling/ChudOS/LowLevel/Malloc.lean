import ChudOS.LowLevel.AllocPage

/-!
# Pages for the kernel, and new address spaces

`malloc` maps a free frame at the next kernel address; `Create_User_Memory` makes such a frame the
PML4 of a new address space that shares the kernel half.
-/

namespace ChudOS

open Memory

variable {m m' : Memory} {roots : Set Nat} {root n k f : Nat} {t : TaskMemoryDefinition}
  {v : U64}

/-! ## Marking a frame -/

theorem setFlags_self {x : U8} (h : (m.physFrames f).flags = x) : m.setFlags f x = m := by
  have same : ({ m.physFrames f with flags := x } : PhysicalFrame) = m.physFrames f := by rw [← h]
  rw [setFlags, setFrame, same, Function.update_eq_self]

theorem setFlags_physFrames (x : U8) (g : Nat) : (m.setFlags f x).physFrames g =
    if g = f then { m.physFrames f with flags := x } else m.physFrames g := by
  simp only [setFlags, setFrame, Function.update_apply]

theorem setFlags_marked {x : U8} (hx : x &&& 0b111 ≠ 0) {g : Nat}
    (h : m.marked g = true ∨ g = f) : (m.setFlags f x).marked g = true := by
  unfold Memory.marked at h ⊢
  rw [setFlags_physFrames]
  split_ifs with hg
  · simpa using hx
  · exact h.resolve_right hg

theorem setFlags_forest (hm : Forest m roots) {x : U8} (hx : x &&& 0b111 ≠ 0) :
    Forest (m.setFlags f x) roots :=
  hm.of_frames rfl rfl fun _ ht => setFlags_marked hx (.inl (hm.marked _ ht))

theorem setFlags_hasFree {x : U8} (h : m.HasFree (n + 1)) : (m.setFlags f x).HasFree n := by
  refine h.erase f fun g hg free => ⟨free.1, ?_⟩
  unfold Memory.marked
  rw [setFlags_physFrames, if_neg hg]
  exact free.2

/-- Marking a free frame leaves no other frame free that was not. -/
theorem setFlags_free {x : U8} (hx : x &&& 0b111 ≠ 0) {g : Nat} (h : (m.setFlags f x).Free g) :
    m.Free g ∧ g ≠ f := by
  refine ⟨⟨h.1, ?_⟩, fun hg => h.not_marked (setFlags_marked hx (.inr hg))⟩
  by_contra hg
  exact h.not_marked (setFlags_marked hx (.inl (by simpa using hg)))

/-! ## `malloc` -/

/-- The page `malloc` maps. -/
def mallocPage (t : TaskMemoryDefinition) (n : Nat) : PageDetails :=
  ⟨⟨kernelFlags, true⟩, nextPageAddress t, physOf n⟩

theorem physOf_lt_totalMem (small : m.totalMem.toNat < 2 ^ 47) (hf : f < frameCount m) :
    physOf f < m.totalMem := by
  have count := frameCount_lt small
  rw [BitVec.lt_def, physOf_toNat (by omega)]
  unfold frameCount at hf
  omega

theorem mallocPage_accepted (ht : virtualMemoryBarrier ≤ nextPageAddress t) (hn : n < 2 ^ 52) :
    allocRefused (m.setFlags n 0b101) (mallocPage t n) = false := by
  have high : ¬nextPageAddress t < virtualMemoryBarrier := BitVec.not_lt.mpr ht
  simp only [allocRefused, mallocPage, frameOf_physOf hn, setFlags_physFrames, if_true, high]
  decide

/-- Frames for a page and for all the tables that may be missing. -/
theorem Memory.HasFree.spare (h : m.HasFree (k + 5)) : m.HasFree (k + m.missing root v + 1) := by
  have := m.missing_le root v
  exact h.mono (by omega)

/-- What `malloc` does while frames are free, one for the page and one for each missing table: the
next kernel page of the task is mapped on a free frame, which is marked before the walk starts. -/
theorem malloc_spec (hm : Forest m roots) (hroot : frameOf m.paging.pml4Physical ∈ roots)
    (ht : virtualMemoryBarrier ≤ nextPageAddress t)
    (enough : m.HasFree
      (k + m.missing (frameOf m.paging.pml4Physical) (nextPageAddress t) + 1)) :
    ∃ n m₁ pt, m.Free n ∧ findNextFreePhysical m = physOf n ∧
      Extends roots (frameOf m.paging.pml4Physical) (pathOf (nextPageAddress t))
        (m.setFlags n 0b101) m₁ ∧ m₁.HasFree k ∧
      m₁.tableAt (frameOf m.paging.pml4Physical) (pathOf (nextPageAddress t)) = some pt ∧
      malloc m t = some (m₁.setEntry (pt, (leafIndex (nextPageAddress t)).val)
          (pageEntry (mallocPage t n)),
        { t with pageCount := t.pageCount + 1 }, nextPageAddress t) := by
  obtain ⟨free, found⟩ := findNextFreePhysical_free hm.small (enough.mono (by omega))
  obtain ⟨n, hn⟩ : ∃ n, frameOf (findNextFreePhysical m) = n := ⟨_, rfl⟩
  rw [hn] at free found
  have bound := hm.free_lt free
  have marked : (0b101 : U8) &&& 0b111 ≠ 0 := by decide
  have high : ¬(mallocPage t n).virtualAddress < virtualMemoryBarrier := BitVec.not_lt.mpr ht
  have uncounted : countReference (m.setFlags n 0b101) (mallocPage t n) = m.setFlags n 0b101 := by
    unfold countReference
    dsimp only
    rw [if_neg high]
  have left : (m.setFlags n 0b101).HasFree
      (k + (m.setFlags n 0b101).missing (frameOf m.paging.pml4Physical) (nextPageAddress t)) :=
    setFlags_hasFree enough
  rw [← uncounted] at left
  obtain ⟨m₁, pt, result, ext, free₁, table⟩ := allocPage_walk (setFlags_forest hm marked) hroot left
    (physOf_lt_totalMem hm.small free.1) (mallocPage_accepted ht (by omega))
  rw [uncounted] at ext
  refine ⟨n, m₁, pt, free, found, ext, free₁, table, ?_⟩
  have nonzero : nextPageAddress t ≠ 0 := fun h => by
    rw [h] at ht
    exact absurd ht (by decide)
  have flags : (m₁.physFrames n).flags = 0b101 := by
    obtain same | ⟨hfree, -, five⟩ := ext.flags n
    · rw [same, setFlags_physFrames, if_pos rfl]
    · exact five
  unfold malloc
  simp only [found, frameOf_physOf (show n < 2 ^ 52 by omega)]
  rw [show allocPage (m.setFlags n 0b101) ⟨⟨kernelFlags, true⟩, nextPageAddress t, physOf n⟩ = _
    from result]
  simp only [Option.bind_eq_bind, Option.bind_some]
  rw [if_neg (show (mallocPage t n).virtualAddress ≠ 0 from nonzero)]
  rw [setFlags_self (by exact flags)]
  rfl

/-! ## What allocation for the kernel leaves to user programs -/

/-- A path into the half of user programs. -/
def UserPath (p : List (Fin 512)) : Prop := p.length = 3 ∧ ∀ i q, p = i :: q → ¬kernelHalf i

/-- What the address spaces `roots` show user programs is kept: their entries in the lower half,
the contents of memory in use, and all reference counts. Frames may have gone to the kernel. -/
structure KeepsUser (roots : Set Nat) (m m' : Memory) : Prop where
  layout : SameLayout m m'
  forest : Forest m' roots
  fresh : ∀ f, IsTable m' roots f → IsTable m roots f ∨ m.Free f
  word : ∀ r ∈ roots, ∀ p, UserPath p → ∀ j,
    m'.wordAt r p j = m.wordAt r p j ∨ m.wordAt r p j = none ∧ m'.wordAt r p j = some 0
  data : ∀ f, m.marked f = true → ¬IsTable m roots f → ∀ j, m'.tables f j = m.tables f j
  refcount : ∀ f, (m'.physFrames f).refcount = (m.physFrames f).refcount
  flags : ∀ f, (m'.physFrames f).flags = (m.physFrames f).flags ∨
    m.Free f ∧ (m'.physFrames f).flags = 0b101

namespace KeepsUser

variable {m'' : Memory}

theorem refl (h : Forest m roots) : KeepsUser roots m m :=
  ⟨.refl, h, fun _ => .inl, fun _ _ _ _ _ => .inl rfl, fun _ _ _ _ => rfl, fun _ => rfl,
    fun _ => .inl rfl⟩

theorem marked (h : KeepsUser roots m m') (hf : m.marked f = true) : m'.marked f = true := by
  obtain same | ⟨free, -⟩ := h.flags f
  · rwa [Memory.marked, same]
  · exact absurd hf free.not_marked

theorem free_of_free (h : KeepsUser roots m m') (hf : m'.Free f) : m.Free f := by
  refine ⟨?_, ?_⟩
  · have := hf.1
    unfold frameCount at this ⊢
    rwa [← h.layout.2.1]
  · by_contra hm
    exact hf.not_marked (h.marked (by simpa using hm))

theorem trans (h : KeepsUser roots m m') (g : KeepsUser roots m' m'') :
    KeepsUser roots m m'' where
  layout := h.layout.trans g.layout
  forest := g.forest
  fresh f hf := by
    obtain hf | free := g.fresh f hf
    · exact h.fresh f hf
    · exact .inr (h.free_of_free free)
  word r hr p hp j := by
    obtain same | ⟨none', zero⟩ := g.word r hr p hp j
    · rw [same]; exact h.word r hr p hp j
    · refine .inr ⟨?_, zero⟩
      obtain same | ⟨absent, -⟩ := h.word r hr p hp j
      · rw [← same, none']
      · exact absent
  data f hf ht j := by
    have ht' : ¬IsTable m' roots f := fun h' =>
      (h.fresh f h').elim ht fun free => free.not_marked hf
    rw [g.data f (h.marked hf) ht' j, h.data f hf ht j]
  refcount f := (g.refcount f).trans (h.refcount f)
  flags f := by
    obtain same | ⟨free, five⟩ := g.flags f
    · rw [same]; exact h.flags f
    · exact .inr ⟨h.free_of_free free, five⟩

/-- The missing tables of a path. -/
theorem of_extends {path : List (Fin 512)} (hm : Forest m roots) (hroot : root ∈ roots)
    (hpath : path.length ≤ 3) (h : Extends roots root path m m') : KeepsUser roots m m' where
  layout := h.layout
  forest := h.forest
  fresh f hf := by
    obtain ⟨r, hr, p, hp, ht⟩ := hf
    exact (h.fresh r hr p f hp ht).imp_left fun ht => ⟨r, hr, p, hp, ht⟩
  word r hr p hp j := h.word hm hroot hpath hr hp.1 j
  data f hf ht j := h.data hroot hpath hf ht j
  refcount := h.refcount
  flags f := (h.flags f).imp_right fun ⟨free, _, five⟩ => ⟨free, five⟩

/-- A mark for the kernel on a free frame. -/
theorem mark (hm : Forest m roots) (free : m.Free n) : KeepsUser roots m (m.setFlags n 0b101) where
  layout := ⟨rfl, rfl, rfl⟩
  forest := setFlags_forest hm (by decide)
  fresh _ := .inl
  word _ _ _ _ _ := .inl rfl
  data _ _ _ _ := rfl
  refcount f := by rw [setFlags_physFrames]; split_ifs with h <;> simp [h]
  flags f := by
    rw [setFlags_physFrames]
    split_ifs with h
    · exact .inr ⟨h ▸ free, rfl⟩
    · exact .inl rfl

/-- An entry of the kernel half. -/
theorem kernelEntry (hm : Forest m roots) (hroot : root ∈ roots) {p : List (Fin 512)}
    (hp : p.length = 3) (kernel : ¬UserPath p) {pt : Nat} (hpt : m.tableAt root p = some pt)
    (d : Fin 512) (x : U64) : KeepsUser roots m (m.setEntry (pt, d.val) x) where
  layout := ⟨rfl, rfl, rfl⟩
  forest := setEntry_forest hm hroot hp hpt
  fresh f hf := .inl ((setEntry_isTable hm.trees hroot hp hpt).mp hf)
  word r hr q hq j := by
    refine .inl (setEntry_word_of_ne hm hroot hp hpt hr hq.1 fun h => kernel ?_)
    exact h.1 ▸ hq
  data f hf ht j := by
    rw [tables_setEntry, RadixTree.write_of_ne_table]
    exact fun h => ht (h ▸ ⟨root, hroot, p, hp.le, hpt⟩)
  refcount _ := rfl
  flags _ := .inl rfl

end KeepsUser

theorem kernelPath_of_le (hv : virtualMemoryBarrier ≤ v) : ¬UserPath (pathOf v) := by
  rintro ⟨-, lower⟩
  have := lower _ _ rfl
  have barrier : virtualMemoryBarrier.toNat = 0xffff800000000000 := rfl
  rw [BitVec.le_def, barrier] at hv
  have := v.isLt
  simp only [kernelHalf] at *
  omega

theorem userPath_of_lt (hv : v.toNat < 2 ^ 47) : UserPath (pathOf v) := by
  refine ⟨rfl, fun i q h => ?_⟩
  obtain ⟨rfl, -⟩ := List.cons.inj h
  simp only [kernelHalf]
  omega

theorem mallocPage_link (hn : n < 2 ^ 40) : link (pageEntry (mallocPage t n)) = some n :=
  link_pageEntry hn rfl (by decide : kernelFlags.toNat < 0x1000)
    (by decide : kernelFlags.getLsbD 0 = true)

/-! ## `Create_User_Memory` -/

/-- The new address space `n` has nothing in the lower half, and its kernel half is that of
`root`. -/
structure NewSpace (roots : Set Nat) (m m' : Memory) (n : Nat) : Prop where
  free : m.Free n
  keeps : KeepsUser roots m m'
  forest : Forest m' (insert n roots)
  fresh : ∀ f, IsTable m' (insert n roots) f → IsTable m roots f ∨ m.Free f
  empty : ∀ p, UserPath p → ∀ j, m'.wordAt n p j = none

/-- The memory after the upper half of `root` has been copied into the frame `n`. -/
def withSpace (m : Memory) (n : Nat) : Memory :=
  { m.zeroFrame n with ram := Function.update (m.zeroFrame n).ram n (upperHalf (m.zeroFrame n)) }

theorem withSpace_tables (hn : frameOf m.paging.pml4Physical ≠ n) :
    (withSpace m n).tables = Function.update m.tables n fun i =>
      if i.val < 256 then 0 else m.tables (frameOf m.paging.pml4Physical) i := by
  funext f i
  by_cases hf : f = n
  · subst hf
    simp [withSpace, Memory.tables, upperHalf, zeroFrame, hn]
  · simp [withSpace, Memory.tables, zeroFrame, hf]

section WithSpace

variable (hroot : frameOf m.paging.pml4Physical ∈ roots) (hn : ¬IsTable m roots n)

include hroot hn

theorem withSpace_ne : frameOf m.paging.pml4Physical ≠ n := by
  rintro rfl
  exact hn ⟨_, hroot, [], by simp, RadixTree.tableAt_nil⟩

theorem withSpace_keeps : ∀ f, IsTable m roots f → (withSpace m n).tables f = m.tables f := by
  intro f hf
  rw [withSpace_tables (withSpace_ne hroot hn), Function.update_of_ne]
  rintro rfl
  exact hn hf

/-- The words of the new PML4: the kernel half of the current one. -/
theorem withSpace_root (i : Fin 512) : (withSpace m n).tables n i =
    if i.val < 256 then 0 else (withSpace m n).tables (frameOf m.paging.pml4Physical) i := by
  have distinct := withSpace_ne hroot hn
  rw [withSpace_tables distinct, Function.update_self, Function.update_of_ne distinct]

theorem withSpace_copy (i : Fin 512) (hi : kernelHalf i) :
    link ((withSpace m n).tables n i) =
      link ((withSpace m n).tables (frameOf m.paging.pml4Physical) i) := by
  rw [withSpace_root hroot hn, if_neg (not_lt.mpr hi)]

theorem withSpace_own (i : Fin 512) (hi : ¬kernelHalf i) :
    link ((withSpace m n).tables n i) = none := by
  rw [withSpace_root hroot hn, if_pos (not_le.mp hi), link_zero]

/-- The tables of the new address space are its PML4 and those of the kernel half. -/
theorem withSpace_isTable (h : IsTable (withSpace m n) (insert n roots) f) :
    IsTable m roots f ∨ f = n := by
  have old {r : Nat} (hr : r ∈ roots) {p : List (Fin 512)} (hp : p.length ≤ 3)
      (ht : (withSpace m n).tableAt r p = some f) : IsTable m roots f :=
    (isTable_of_tables (withSpace_keeps hroot hn)).mp ⟨r, hr, p, hp, ht⟩
  obtain ⟨r, rfl | hr, p, hp, ht⟩ := h
  · cases p with
    | nil => exact .inr (Option.some.inj ht).symm
    | cons i p =>
      have shared := RadixTree.tableAt_of_share (withSpace_copy hroot hn)
        (withSpace_own hroot hn) ht
      exact .inl (old hroot hp shared.2)
  · exact .inl (old hr hp ht)

theorem withSpace_forest (hm : Forest m roots) (marked : m.marked n = true) (bound : n < frameCount m) :
    Forest (withSpace m n) (insert n roots) := by
  have keeps := withSpace_keeps hroot hn
  have old : Forest (withSpace m n) roots := hm.of_tables keeps rfl hm.marked
  have fresh : ∀ r ∈ roots, ∀ p, p.length ≤ 3 → (withSpace m n).tableAt r p ≠ some n :=
    fun r hr p hp ht => hn ((isTable_of_tables keeps).mp ⟨r, hr, p, hp, ht⟩)
  refine ⟨old.separated.share hroot (withSpace_copy hroot hn) (withSpace_own hroot hn) fresh,
    fun f hf => ?_, fun f hf => ?_, hm.small⟩
  · obtain hf | rfl := withSpace_isTable hroot hn hf
    · exact hm.marked f hf
    · exact marked
  · obtain hf | rfl := withSpace_isTable hroot hn hf
    · exact hm.inMemory f hf
    · exact bound

theorem withSpace_empty {p : List (Fin 512)} (hp : UserPath p) (j : Fin 512) :
    (withSpace m n).wordAt n p j = none := by
  rw [Memory.wordAt_eq]
  cases p with
  | nil => exact absurd hp.1 (by simp)
  | cons i p =>
    have cut := withSpace_own hroot hn i (hp.2 i p rfl)
    rw [Memory.tableAt, RadixTree.tableAt, cut]
    rfl

end WithSpace

/-- A new PML4 in a frame that was free is no change for user programs. -/
theorem KeepsUser.withSpace (h : KeepsUser roots m m') (free : m.Free n)
    (hroot : frameOf m'.paging.pml4Physical ∈ roots) (hn : ¬IsTable m' roots n) :
    KeepsUser roots m (withSpace m' n) := by
  have keeps := withSpace_keeps hroot hn
  refine ⟨h.layout, h.forest.of_tables keeps rfl h.forest.marked,
    fun f hf => h.fresh f ((isTable_of_tables keeps).mp hf), fun r hr p hp j => ?_,
    fun f hf ht j => ?_, h.refcount, h.flags⟩
  · rw [wordAt_of_tables keeps hr hp.1.le]
    exact h.word r hr p hp j
  · rw [withSpace_tables (withSpace_ne hroot hn), Function.update_of_ne]
    · exact h.data f hf ht j
    · rintro rfl
      exact free.not_marked hf

/-- The kernel page of `v` is mapped on the frame `n`, which was free. -/
structure KernelPage (roots : Set Nat) (m m' : Memory) (t : TaskMemoryDefinition) (n : Nat) :
    Prop where
  free : m.Free n
  keeps : KeepsUser roots m m'
  flags : (m'.physFrames n).flags = 0b101
  data : ¬IsTable m' roots n
  word : m'.wordAt (frameOf m.paging.pml4Physical) (pathOf (nextPageAddress t))
    (leafIndex (nextPageAddress t)) = some (pageEntry (mallocPage t n))

/-- The page tables of the address spaces `roots` are still reached. -/
def KeepsTables (roots : Set Nat) (m m' : Memory) : Prop :=
  ∀ r ∈ roots, ∀ p u, p.length ≤ 3 → m.tableAt r p = some u → m'.tableAt r p = some u

theorem malloc_kernelPage (hm : Forest m roots) (hroot : frameOf m.paging.pml4Physical ∈ roots)
    (ht : virtualMemoryBarrier ≤ nextPageAddress t)
    (enough : m.HasFree
      (k + m.missing (frameOf m.paging.pml4Physical) (nextPageAddress t) + 1)) :
    ∃ n m', findNextFreePhysical m = physOf n ∧
      malloc m t = some (m', { t with pageCount := t.pageCount + 1 }, nextPageAddress t) ∧
      KernelPage roots m m' t n ∧ m'.HasFree k ∧ KeepsTables roots m m' := by
  obtain ⟨n, m₁, pt, free, found, ext, free₁, table, result⟩ := malloc_spec hm hroot ht enough
  have marked := KeepsUser.mark hm free
  have walked := marked.trans (.of_extends marked.forest hroot (pathOf_length _).le ext)
  refine ⟨n, _, found, result, ⟨free, ?_, ?_, ?_, ?_⟩, free₁, fun r hr p u hp hu => ?_⟩
  · exact walked.trans
      (.kernelEntry ext.forest hroot (pathOf_length _) (kernelPath_of_le ht) table _ _)
  · obtain same | ⟨-, -, five⟩ := ext.flags n
    · rw [setEntry_physFrames, same, setFlags_physFrames, if_pos rfl]
    · exact five
  · rw [setEntry_isTable ext.forest.trees hroot (pathOf_length _) table]
    rintro ⟨r, hr, p, hp, h⟩
    obtain h | h := ext.fresh r hr p n hp h
    · exact hm.ne_free free ⟨r, hr, p, hp, h⟩ rfl
    · exact (setFlags_free (by decide) h).2 rfl
  · exact setEntry_word ext.forest hroot (pathOf_length _) table
  · rw [setEntry_tableAt ext.forest.trees hroot (pathOf_length _) table hr hp]
    exact ext.keeps r hr p u hp hu

namespace KernelPage

variable (h : KernelPage roots m m' t n) (hn : n < 2 ^ 40)

include h

theorem inMemory : n < frameCount m' := by
  have := h.free.1
  unfold frameCount at this ⊢
  rwa [h.keeps.layout.2.1]

theorem marked : m'.marked n = true := by
  rw [Memory.marked, h.flags]
  decide

include hn

/-- The page is found by the CPU. -/
theorem translate (selected : m.paging.cr3 = m.paging.pml4Physical) :
    translate m' (nextPageAddress t) = some n := by
  have current : m'.paging.cr3 = m.paging.pml4Physical := by
    rw [h.keeps.layout.1, selected]
  rw [translate_eq, current, h.word, Option.bind_some, mallocPage_link hn]

/-- With an address space in it, its physical address is found. -/
theorem physAddr (hroot : frameOf m.paging.pml4Physical ∈ roots) :
    ∃ a, physAddr (ChudOS.withSpace m' n) (nextPageAddress t) = (ChudOS.withSpace m' n, a) ∧
      frameOf a = n := by
  have hroot' : frameOf m'.paging.pml4Physical ∈ roots := by rwa [h.keeps.layout.1]
  have forest := withSpace_forest hroot' h.data h.keeps.forest h.marked h.inMemory
  have word : m'.wordAt (frameOf m'.paging.pml4Physical) (pathOf (nextPageAddress t))
      (leafIndex (nextPageAddress t)) = some (pageEntry (mallocPage t n)) := by
    rw [h.keeps.layout.1]
    exact h.word
  have same := wordAt_of_tables (withSpace_keeps hroot' h.data) hroot'
    (pathOf_length (nextPageAddress t)).le (leafIndex (nextPageAddress t))
  obtain ⟨a, address, frame⟩ := physAddr_present forest.trees
    (Set.mem_insert_of_mem n hroot') (same.trans word)
  exact ⟨a, address, frame.trans (link_eq_some.mp (mallocPage_link hn)).2⟩

end KernelPage

/-- `Create_User_Memory` while frames are free: the PML4 lies in a frame that was free and is the
kernel's from then on. -/
theorem createUserMemory_spec (hm : Forest m roots)
    (hroot : frameOf m.paging.pml4Physical ∈ roots) (selected : m.paging.cr3 = m.paging.pml4Physical)
    (ht : virtualMemoryBarrier ≤ nextPageAddress t) (enough : m.HasFree (k + 5)) :
    ∃ m' a, createUserMemory m t = some (m', { t with pageCount := t.pageCount + 1 }, a) ∧
      NewSpace roots m m' (frameOf a) ∧ (m'.physFrames (frameOf a)).flags = 0b101 ∧
      m'.HasFree k ∧ KeepsTables roots m m' := by
  obtain ⟨n, m₁, -, result, page, free₁, tables⟩ := malloc_kernelPage hm hroot ht enough.spare
  have bound := hm.free_lt page.free
  have hroot' : frameOf m₁.paging.pml4Physical ∈ roots := by rwa [page.keeps.layout.1]
  obtain ⟨a, address, rfl⟩ := page.physAddr (by omega) hroot
  refine ⟨withSpace m₁ (frameOf a), a, ?_, ⟨page.free,
    page.keeps.withSpace page.free hroot' page.data,
    withSpace_forest hroot' page.data page.keeps.forest page.marked page.inMemory,
    fun f hf => ?_, fun p hp j => withSpace_empty hroot' page.data hp j⟩, page.flags, free₁,
    fun r hr p u hp hu => ?_⟩
  · unfold createUserMemory
    rw [result]
    simp only [Option.bind_eq_bind, Option.bind_some]
    rw [page.translate (by omega) selected, Option.bind_some]
    unfold withSpace at address ⊢
    rw [address]
  · obtain hf | rfl := withSpace_isTable hroot' page.data hf
    · exact page.keeps.fresh f hf
    · exact .inr page.free
  · rw [tableAt_of_tables (withSpace_keeps hroot' page.data) hr hp]
    exact tables r hr p u hp hu

end ChudOS
