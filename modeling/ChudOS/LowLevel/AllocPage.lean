import ChudOS.LowLevel.PageTables

/-!
# Mapping one page

`alloc_page` counts the frame, installs the tables that are missing on the way to the page, and
stores one entry. In a separated forest it changes the address space in this one point.
-/

namespace ChudOS

open Memory

variable {m m' : Memory} {roots : Set Nat} {root t n f : Nat} {page : PageDetails}

/-! ## Changes of the frame table -/

/-- A change of the frame table that leaves the page tables marked. -/
theorem Forest.of_frames (hm : Forest m roots) (hram : m'.ram = m.ram)
    (htotal : m'.totalMem = m.totalMem)
    (hmarked : ∀ t, IsTable m roots t → m'.marked t = true) : Forest m' roots :=
  hm.of_tables (fun f _ => by unfold Memory.tables; rw [hram]) htotal hmarked

/-- The frame table after `alloc_page` has counted the frame. -/
theorem countReference_physFrames (m : Memory) (page : PageDetails) (f : Nat) :
    (countReference m page).physFrames f =
      if page.virtualAddress < virtualMemoryBarrier ∧ f = frameOf page.physicalAddress then
        ⟨(m.physFrames f).refcount + 1,
          if (m.physFrames f).refcount = 0 then 1 else (m.physFrames f).flags⟩
      else m.physFrames f := by
  unfold countReference
  dsimp only
  by_cases hv : page.virtualAddress < virtualMemoryBarrier
  · by_cases hf : f = frameOf page.physicalAddress
    · subst hf
      by_cases hr : (m.physFrames (frameOf page.physicalAddress)).refcount = 0
      · simp only [hv, hr, if_true, and_self, setFrame, setFlags, Function.update_self]
      · simp only [hv, hr, if_true, if_false, and_self, setFrame, Function.update_self]
    · by_cases hr : (m.physFrames (frameOf page.physicalAddress)).refcount = 0
      · simp only [hv, hr, hf, and_false, if_true, if_false, setFrame, setFlags,
          Function.update_of_ne, ne_eq, not_false_iff]
      · simp only [hv, hr, hf, and_false, if_true, if_false, setFrame, Function.update_of_ne,
          ne_eq, not_false_iff]
  · simp only [hv, false_and, if_false]

@[simp] theorem countReference_ram (m : Memory) (page : PageDetails) :
    (countReference m page).ram = m.ram := by
  unfold countReference
  dsimp only
  split_ifs <;> rfl

theorem countReference_marked (h : m.marked f = true) :
    (countReference m page).marked f = true := by
  unfold Memory.marked at h ⊢
  rw [countReference_physFrames]
  split_ifs
  · show ((1 : U8) &&& 0b111 != 0) = true
    decide
  · exact h
  · exact h

theorem countReference_of_ne (h : f ≠ frameOf page.physicalAddress) :
    (countReference m page).physFrames f = m.physFrames f := by
  rw [countReference_physFrames, if_neg fun h' => h h'.2]

theorem countReference_forest (hm : Forest m roots) : Forest (countReference m page) roots :=
  hm.of_frames (countReference_ram m page) (countReference_layout m page).2.1
    fun t ht => countReference_marked (hm.marked t ht)

theorem countReference_frameCount : frameCount (countReference m page) = frameCount m := by
  unfold frameCount
  rw [(countReference_layout m page).2.1]

theorem countReference_free (h : (countReference m page).Free f) : m.Free f := by
  refine ⟨countReference_frameCount (m := m) ▸ h.1, ?_⟩
  by_contra hf
  exact h.not_marked (countReference_marked (by simpa using hf))

theorem countReference_hasFree (h : m.HasFree (n + 1)) : (countReference m page).HasFree n := by
  refine h.erase (frameOf page.physicalAddress) fun f hf free => ?_
  refine ⟨countReference_frameCount (m := m) ▸ free.1, ?_⟩
  unfold Memory.marked
  rw [countReference_of_ne hf]
  exact free.2

/-! ## One page -/

/-- What `alloc_page` does when it does not refuse, and there are free frames for the tables that are
missing. -/
theorem allocPage_walk (hm : Forest m roots) (hroot : frameOf m.paging.pml4Physical ∈ roots)
    (enough : (countReference m page).HasFree
      (n + (countReference m page).missing (frameOf m.paging.pml4Physical) page.virtualAddress))
    (inMemory : page.physicalAddress < m.totalMem) (accepted : allocRefused m page = false) :
    ∃ m₁ pt, allocPage m page =
        some (m₁.setEntry (pt, (leafIndex page.virtualAddress).val) (pageEntry page),
          page.virtualAddress) ∧
      Extends roots (frameOf m.paging.pml4Physical) (pathOf page.virtualAddress)
        (countReference m page) m₁ ∧ m₁.HasFree n ∧
      m₁.tableAt (frameOf m.paging.pml4Physical) (pathOf page.virtualAddress) = some pt := by
  have layout := countReference_layout m page
  have hroot' : frameOf (countReference m page).paging.pml4Physical ∈ roots := by rwa [layout.1]
  rw [← layout.1] at enough
  obtain ⟨m₁, pt, walk, ext, free, table⟩ := walk_spec (countReference_forest hm) hroot'
    page.virtualAddress enough
  rw [layout.1] at ext table
  refine ⟨m₁, pt, ?_, ext, free, table⟩
  unfold allocPage
  rw [if_neg (BitVec.not_le.mpr inMemory), accepted, if_neg Bool.false_ne_true]
  dsimp only
  rw [walk]

theorem allocPage_spec (hm : Forest m roots) (hroot : frameOf m.paging.pml4Physical ∈ roots)
    (enough : m.HasFree (n + 4)) (inMemory : page.physicalAddress < m.totalMem)
    (accepted : allocRefused m page = false) :
    ∃ m₁ pt, allocPage m page =
        some (m₁.setEntry (pt, (leafIndex page.virtualAddress).val) (pageEntry page),
          page.virtualAddress) ∧
      Extends roots (frameOf m.paging.pml4Physical) (pathOf page.virtualAddress)
        (countReference m page) m₁ ∧ m₁.HasFree n ∧
      m₁.tableAt (frameOf m.paging.pml4Physical) (pathOf page.virtualAddress) = some pt :=
  allocPage_walk hm hroot
    ((countReference_hasFree enough).mono (Nat.add_le_add_left (Memory.missing_le _ _ _) n)) inMemory accepted

/-- After `m'`, the address space `root` maps the page of `v` by the entry `e`; every other page is
as it was, and the tables that are new were free, are marked, are not the frame `target` or any
other table, and hold nothing but the path to the page. -/
structure OnePoint (m m' : Memory) (root target : Nat) (v e : U64) : Prop where
  mapped : m'.wordAt root (pathOf v) (leafIndex v) = some e
  others : ∀ p j, p.length = 3 → ¬(p = pathOf v ∧ j = leafIndex v) →
    m'.wordAt root p j = m.wordAt root p j ∨
      m.wordAt root p j = none ∧ m'.wordAt root p j = some 0
  tables : ∀ p t, p.length ≤ 3 → m.tableAt root p = some t → m'.tableAt root p = some t
  added : ∀ p t, p.length ≤ 3 → m'.tableAt root p = some t → m.tableAt root p = none →
    m.Free t ∧ m'.marked t = true ∧ t ≠ target ∧
      (∀ q, q.length ≤ 3 → m'.tableAt root q = some t → q = p) ∧
      ∀ j : Fin 512, ¬p ++ [j] <+: pathOf v ++ [leafIndex v] → m'.tables t j = 0

theorem pathOf_length (v : U64) : (pathOf v).length = 3 := rfl

/-- `alloc_page` is a one-point update of the address space. -/
theorem allocPage_onePoint (hm : Forest m {frameOf m.paging.pml4Physical})
    (enough : m.HasFree 4) (inMemory : page.physicalAddress < m.totalMem)
    (used : (countReference m page).marked (frameOf page.physicalAddress) = true)
    (accepted : allocRefused m page = false) :
    ∃ m', allocPage m page = some (m', page.virtualAddress) ∧
      OnePoint m m' (frameOf m.paging.pml4Physical) (frameOf page.physicalAddress)
        page.virtualAddress (pageEntry page) := by
  have hroot : frameOf m.paging.pml4Physical ∈ ({frameOf m.paging.pml4Physical} : Set Nat) := rfl
  have counted : Forest (countReference m page) {frameOf m.paging.pml4Physical} :=
    countReference_forest hm
  obtain ⟨m₁, pt, result, ext, -, table⟩ :=
    allocPage_spec (n := 0) hm hroot enough inMemory accepted
  have same (p : List (Fin 512)) :
      (countReference m page).tableAt (frameOf m.paging.pml4Physical) p =
        m.tableAt (frameOf m.paging.pml4Physical) p := by
    unfold Memory.tableAt Memory.tables
    rw [countReference_ram]
  have sameWord (p : List (Fin 512)) (j : Fin 512) :
      (countReference m page).wordAt (frameOf m.paging.pml4Physical) p j =
        m.wordAt (frameOf m.paging.pml4Physical) p j := by
    rw [Memory.wordAt_eq, Memory.wordAt_eq, same]
    unfold Memory.tables
    rw [countReference_ram]
  have trees {p : List (Fin 512)} (hp : p.length ≤ 3) :=
    setEntry_tableAt ext.forest.trees hroot (pathOf_length _) table hroot hp
      (d := leafIndex page.virtualAddress) (x := pageEntry page)
  refine ⟨_, result, setEntry_word ext.forest hroot (pathOf_length _) table,
    fun p j hp hne => ?_, fun p t hp ht => ?_, fun p t hp ht hold => ?_⟩
  · rw [setEntry_word_of_ne ext.forest hroot (pathOf_length _) table hroot hp hne]
    have word := ext.word counted hroot (pathOf_length _).le hroot hp j
    rwa [sameWord] at word
  · rw [trees hp]
    exact ext.keeps _ hroot p t hp ((same p).trans ht)
  · rw [trees hp] at ht
    obtain h | free := ext.fresh _ hroot p t hp ht
    · rw [same, hold] at h; cases h
    have marked := ext.forest.marked t ⟨_, hroot, p, hp, ht⟩
    refine ⟨countReference_free free, marked, fun h => ?_, fun q hq hqt => ?_, fun j hj => ?_⟩
    · exact free.not_marked (h ▸ used)
    · rw [trees hq] at hqt
      exact ext.forest.separated.path_eq hroot hroot hq hp hqt ht
    · rw [tables_setEntry, RadixTree.write_of_ne]
      · exact ext.zero _ hroot p t hp ht free j fun h => hj (h.trans (List.prefix_append _ _))
      · rintro ⟨rfl, rfl⟩
        have path := ext.forest.separated.path_eq hroot hroot hp (pathOf_length _).le ht table
        exact hj (path ▸ List.prefix_refl _)

/-! ## An empty address space -/

/-- Sixteen frames, of which frame 1 holds an empty PML4. -/
def emptySpace : Memory where
  ram _ _ := 0
  physFrames f := if f = 1 then ⟨0, 0b101⟩ else ⟨0, 0⟩
  totalMem := 0x10000
  availableMem := 0x10000
  physicalPagesUsed := 0
  virtualMemorySize := 64
  paging := ⟨0x1000, 0x1000, 0x1000⟩

theorem emptySpace_tableAt {p : List (Fin 512)} (h : emptySpace.tableAt 1 p = some t) :
    p = [] ∧ t = 1 := by
  cases p with
  | nil => exact ⟨rfl, (Option.some.inj h).symm⟩
  | cons i p =>
    have absent : link (emptySpace.tables 1 i) = none := link_zero
    rw [Memory.tableAt, RadixTree.tableAt, absent] at h
    cases h

theorem emptySpace_isTable (h : IsTable emptySpace {1} t) : t = 1 := by
  obtain ⟨r, rfl, p, -, ht⟩ := h
  exact (emptySpace_tableAt ht).2

theorem emptySpace_forest : Forest emptySpace {1} where
  separated := by
    rintro r r' p q t rfl rfl - - h₁ h₂
    exact ⟨(emptySpace_tableAt h₁).1.trans (emptySpace_tableAt h₂).1.symm, .inl rfl⟩
  marked t ht := by rw [emptySpace_isTable ht]; decide
  inMemory t ht := by rw [emptySpace_isTable ht]; decide
  small := by decide

theorem emptySpace_hasFree : emptySpace.HasFree 4 := by
  refine ⟨{2, 3, 4, 5}, by decide, fun f hf => ?_⟩
  have : f = 2 ∨ f = 3 ∨ f = 4 ∨ f = 5 := by simpa using hf
  obtain rfl | rfl | rfl | rfl := this <;> exact ⟨by decide, by decide⟩

/-- A user page at 1 GiB on frame 5. -/
def emptySpacePage : PageDetails := ⟨⟨userFlags, false⟩, 0x40000000, 0x5000⟩

theorem allocPage_onePoint_empty :
    ∃ m', allocPage emptySpace emptySpacePage = some (m', 0x40000000) ∧
      OnePoint emptySpace m' 1 5 0x40000000 0x5007 :=
  allocPage_onePoint emptySpace_forest emptySpace_hasFree (by decide)
    (by decide) (by decide)

end ChudOS
