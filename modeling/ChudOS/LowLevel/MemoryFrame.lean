import ChudOS.LowLevel.Memory

/-!
# What the memory functions leave alone

None of them but `mem_set_cr3` touches the paging registers, and `total_mem` is fixed. Writes to
RAM touch neither the frame table nor these.
-/

namespace ChudOS

namespace Memory

variable (m : Memory) (s : Slot) (f : Nat) (x : U64) (y : PhysicalFrame) (b : U8)

@[simp] theorem setEntry_paging : (m.setEntry s x).paging = m.paging := rfl
@[simp] theorem setEntry_physFrames : (m.setEntry s x).physFrames = m.physFrames := rfl
@[simp] theorem setEntry_totalMem : (m.setEntry s x).totalMem = m.totalMem := rfl
@[simp] theorem zeroFrame_paging : (m.zeroFrame f).paging = m.paging := rfl
@[simp] theorem zeroFrame_physFrames : (m.zeroFrame f).physFrames = m.physFrames := rfl
@[simp] theorem zeroFrame_totalMem : (m.zeroFrame f).totalMem = m.totalMem := rfl
@[simp] theorem setFrame_paging : (m.setFrame f y).paging = m.paging := rfl
@[simp] theorem setFrame_ram : (m.setFrame f y).ram = m.ram := rfl
@[simp] theorem setFrame_totalMem : (m.setFrame f y).totalMem = m.totalMem := rfl
@[simp] theorem setFlags_paging : (m.setFlags f b).paging = m.paging := rfl
@[simp] theorem setFlags_ram : (m.setFlags f b).ram = m.ram := rfl
@[simp] theorem setFlags_totalMem : (m.setFlags f b).totalMem = m.totalMem := rfl

/-- The parts of memory that are fixed while the machine runs: the sizes found at boot. -/
def SameLayout (m m' : Memory) : Prop :=
  m'.paging = m.paging ∧ m'.totalMem = m.totalMem ∧ m'.virtualMemorySize = m.virtualMemorySize

variable {m}

theorem SameLayout.refl : SameLayout m m := ⟨rfl, rfl, rfl⟩

theorem SameLayout.trans {m' m'' : Memory} (h : SameLayout m m') (g : SameLayout m' m'') :
    SameLayout m m'' := ⟨g.1.trans h.1, g.2.1.trans h.2.1, g.2.2.trans h.2.2⟩

end Memory

open Memory

variable {m m' : Memory}

theorem ensureEntry_layout (m : Memory) (s : Slot) (flags : U8) :
    SameLayout m (ensureEntry m s flags) := by
  unfold ensureEntry
  dsimp only
  split <;> exact ⟨rfl, rfl, rfl⟩

theorem calculatePagePhysicalEntryAddress_layout (m : Memory) (e : PageEntries) :
    SameLayout m (calculatePagePhysicalEntryAddress m e).1 :=
  ((ensureEntry_layout _ _ _).trans (ensureEntry_layout _ _ _)).trans (ensureEntry_layout _ _ _)

theorem countReference_layout (m : Memory) (page : PageDetails) :
    SameLayout m (countReference m page) := by
  unfold countReference
  dsimp only
  split_ifs <;> exact ⟨rfl, rfl, rfl⟩

theorem dropReference_layout (m : Memory) (a : U64) : SameLayout m (dropReference m a) := by
  unfold dropReference
  dsimp only
  split_ifs <;> exact ⟨rfl, rfl, rfl⟩

/-- What `alloc_page` can do: refuse, or count the frame, walk and store the entry. -/
theorem allocPage_cases {page : PageDetails} {a : U64} (h : allocPage m page = some (m', a)) :
    page.physicalAddress < m.totalMem ∧
      ((allocRefused m page = true ∧ m' = m ∧ a = 0) ∨
       (allocRefused m page = false ∧ a = page.virtualAddress ∧
        m' = (calculatePagePhysicalEntryAddress (countReference m page)
            (extractPageEntries page.virtualAddress)).1.setEntry
          (calculatePagePhysicalEntryAddress (countReference m page)
            (extractPageEntries page.virtualAddress)).2 (pageEntry page))) := by
  unfold allocPage at h
  split at h
  · cases h
  next hmem =>
    refine ⟨BitVec.not_le.mp hmem, ?_⟩
    split at h
    next href => cases h; exact .inl ⟨href, rfl, rfl⟩
    next href => cases h; exact .inr ⟨by simpa using href, rfl, rfl⟩

theorem allocPage_layout {page : PageDetails} {a : U64} (h : allocPage m page = some (m', a)) :
    SameLayout m m' := by
  obtain ⟨-, ⟨-, rfl, -⟩ | ⟨-, -, rfl⟩⟩ := allocPage_cases h
  · exact .refl
  · exact ((countReference_layout m page).trans
      (calculatePagePhysicalEntryAddress_layout _ _)).trans ⟨rfl, rfl, rfl⟩

theorem freePage_layout (m : Memory) (page : PageDetails) : SameLayout m (freePage m page).1 := by
  unfold freePage
  split
  · exact .refl
  · exact ((dropReference_layout m _).trans
      (calculatePagePhysicalEntryAddress_layout _ _)).trans ⟨rfl, rfl, rfl⟩

theorem physAddr_layout (m : Memory) (a : U64) : SameLayout m (physAddr m a).1 :=
  calculatePagePhysicalEntryAddress_layout _ _

/-- What `malloc` can do: it maps a free frame, owned by the kernel, above the task's pages, or
gives the frame back. -/
theorem malloc_cases {t t' : TaskMemoryDefinition} {a : U64}
    (h : malloc m t = some (m', t', a)) :
    ∃ m₁, allocPage (m.setFlags (frameOf (findNextFreePhysical m)) 0b101)
        ⟨⟨kernelFlags, true⟩, nextPageAddress t, findNextFreePhysical m⟩ = some (m₁, a) ∧
      ((a = 0 ∧ t' = t ∧ m' = (m₁.setFlags (frameOf (findNextFreePhysical m)) 0b101).setFlags
          (frameOf (findNextFreePhysical m)) 0) ∨
       (a ≠ 0 ∧ t' = { t with pageCount := t.pageCount + 1 } ∧
          m' = m₁.setFlags (frameOf (findNextFreePhysical m)) 0b101)) := by
  unfold malloc at h
  simp only [Option.bind_eq_bind, Option.bind_eq_some_iff, Prod.exists] at h
  obtain ⟨m₁, b, hb, h⟩ := h
  split at h
  next ha => cases h; exact ⟨m₁, hb, .inl ⟨ha, rfl, rfl⟩⟩
  next ha => cases h; exact ⟨m₁, hb, .inr ⟨ha, rfl, rfl⟩⟩

theorem malloc_layout {t t' : TaskMemoryDefinition} {a : U64}
    (h : malloc m t = some (m', t', a)) : SameLayout m m' := by
  obtain ⟨m₁, hb, ⟨-, -, rfl⟩ | ⟨-, -, rfl⟩⟩ := malloc_cases h
  all_goals
    exact (SameLayout.trans ⟨rfl, rfl, rfl⟩ (allocPage_layout hb)).trans ⟨rfl, rfl, rfl⟩

theorem mallocSpecific_layout {t t' : TaskMemoryDefinition} {a b : U64} {p : PagePermissions}
    (h : mallocSpecific m t a p = some (m', t', b)) : SameLayout m m' := by
  unfold mallocSpecific at h
  simp only [Option.bind_eq_bind, Option.bind_eq_some_iff, Prod.exists] at h
  obtain ⟨m₁, c, hc, h⟩ := h
  split at h <;> (cases h; exact allocPage_layout hc)

/-- The steps of `Create_User_Memory`: a page, a fresh upper half in it, its address. -/
theorem createUserMemory_cases {t t' : TaskMemoryDefinition} {a : U64}
    (h : createUserMemory m t = some (m', t', a)) :
    ∃ m₁ va f, malloc m t = some (m₁, t', va) ∧ translate m₁ va = some f ∧
      physAddr { m₁.zeroFrame f with
        ram := Function.update (m₁.zeroFrame f).ram f (upperHalf (m₁.zeroFrame f)) } va =
        (m', a) := by
  unfold createUserMemory at h
  simp only [Option.bind_eq_bind, Option.bind_eq_some_iff, Prod.exists] at h
  obtain ⟨m₁, t₁, va, hm, f, hf, h⟩ := h
  cases h
  exact ⟨m₁, va, f, hm, hf, rfl⟩

theorem createUserMemory_layout {t t' : TaskMemoryDefinition} {a : U64}
    (h : createUserMemory m t = some (m', t', a)) : SameLayout m m' := by
  obtain ⟨m₁, va, f, hm, -, hp⟩ := createUserMemory_cases h
  obtain rfl : (physAddr _ va).1 = m' := congrArg Prod.fst hp
  exact (malloc_layout hm).trans (SameLayout.trans ⟨rfl, rfl, rfl⟩ (physAddr_layout _ va))

/-- Writing bytes changes nothing but RAM. -/
theorem storeByte_eq {a : U64} {b : U8} (h : storeByte m a b = some m') :
    m' = { m with ram := m'.ram } := by
  unfold storeByte at h
  simp only [Option.bind_eq_bind, Option.bind_eq_some_iff] at h
  obtain ⟨f, -, h⟩ := h
  cases h
  rfl

theorem copyOut_eq {bs : List U8} {a : U64} (h : copyOut m a bs = some m') :
    m' = { m with ram := m'.ram } := by
  induction bs generalizing m a with
  | nil => cases h; rfl
  | cons b bs ih =>
    simp only [copyOut, Option.bind_eq_bind, Option.bind_eq_some_iff] at h
    obtain ⟨m₁, h₁, h⟩ := h
    rw [ih h, storeByte_eq h₁]

theorem store64_eq {a x : U64} (h : store64 m a x = some m') : m' = { m with ram := m'.ram } :=
  copyOut_eq h

/-- A change of RAM alone keeps the layout. -/
theorem layout_of_ram (h : m' = { m with ram := m'.ram }) : SameLayout m m' := by
  rw [h]; exact ⟨rfl, rfl, rfl⟩

end ChudOS
