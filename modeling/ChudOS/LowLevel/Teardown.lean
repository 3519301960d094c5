import ChudOS.LowLevel.Malloc

/-!
# Tearing an address space down

The three loops cut the lower half off, from the page tables upwards, and give the frame of each
table back by its address in the direct map. They leave the kernel half and all other address
spaces alone; the PML4 is zeroed at the end.

## Main definitions

* `DirectMapped` — the page tables of the direct map are there, for all of memory.
* `Clears` — an operation has at most removed what hangs below a path of the lower half.
-/

namespace ChudOS

open Memory

variable {m m' m'' : Memory} {roots : Set Nat} {root t f : Nat} {p q : List (Fin 512)}

/-- The page tables that map the frames of memory at `VIRTUAL_MEMORY_BARRIER` are there. -/
def DirectMapped (m : Memory) (root : Nat) : Prop :=
  ∀ f, f < frameCount m → ∃ pt, m.tableAt root (pathOf (physOf f + virtualMemoryBarrier)) = some pt

theorem DirectMapped.of_isSome (h : ∀ f < frameCount m,
    (m.tableAt root (pathOf (physOf f + virtualMemoryBarrier))).isSome = true) :
    DirectMapped m root := fun f hf => Option.isSome_iff_exists.mp (h f hf)

/-- A path that starts in the lower half. -/
def LowerPath (p : List (Fin 512)) : Prop := ∃ i q, p = i :: q ∧ ¬kernelHalf i

/-- The state in which tables can be given back: the current address space is one of `roots`, and
has the direct map. -/
structure Clearable (roots : Set Nat) (m : Memory) : Prop where
  trees : Trees m roots
  current : frameOf m.paging.pml4Physical ∈ roots
  mapped : DirectMapped m (frameOf m.paging.pml4Physical)

/-- From `m` to `m'` tables have at most been removed, and of these only some strictly below the path
`p` in the lower half. -/
structure Clears (roots : Set Nat) (p : List (Fin 512)) (m m' : Memory) : Prop where
  layout : SameLayout m m'
  sub : ∀ r ∈ roots, ∀ q t, q.length ≤ 3 → m'.tableAt r q = some t → m.tableAt r q = some t
  keeps : ∀ r ∈ roots, ∀ q, q.length ≤ 3 → ¬(LowerPath q ∧ p <+: q ∧ q ≠ p) →
    m'.tableAt r q = m.tableAt r q

theorem Memory.SameLayout.frameCount_eq (h : SameLayout m m') : frameCount m' = frameCount m := by
  unfold frameCount
  rw [h.2.1]

/-- The direct map hangs below the kernel half. -/
theorem direct_upper {f : Nat} (small : f < 2 ^ 35) :
    ¬LowerPath (pathOf (physOf f + virtualMemoryBarrier)) := by
  rintro ⟨i, s, path, lower⟩
  have upper : virtualMemoryBarrier ≤ physOf f + virtualMemoryBarrier := by
    have barrier : virtualMemoryBarrier.toNat = 0xffff800000000000 := rfl
    rw [BitVec.le_def, BitVec.toNat_add, physOf_toNat (by omega), barrier]
    omega
  refine kernelPath_of_le upper ⟨pathOf_length _, fun j q same => ?_⟩
  rw [path] at same
  obtain ⟨rfl, -⟩ := List.cons.inj same
  exact lower

namespace Clears

theorem of_tableAt (layout : SameLayout m m')
    (same : ∀ r ∈ roots, ∀ q, q.length ≤ 3 → m'.tableAt r q = m.tableAt r q) :
    Clears roots p m m' where
  layout := layout
  sub r hr q _ hq ht := (same r hr q hq).symm.trans ht
  keeps r hr q hq _ := same r hr q hq

theorem refl : Clears roots p m m := .of_tableAt .refl fun _ _ _ _ => rfl

theorem trans (h : Clears roots p m m') (g : Clears roots p m' m'') : Clears roots p m m'' where
  layout := h.layout.trans g.layout
  sub r hr q t hq ht := h.sub r hr q t hq (g.sub r hr q t hq ht)
  keeps r hr q hq off := (g.keeps r hr q hq off).trans (h.keeps r hr q hq off)

/-- What happens below a path happens below every part of it. -/
theorem above {i : Fin 512} (h : Clears roots (p ++ [i]) m m') : Clears roots p m m' where
  layout := h.layout
  sub := h.sub
  keeps r hr q hq off := by
    refine h.keeps r hr q hq fun ⟨lower, below, _⟩ => off ⟨lower, ?_, ?_⟩
    · exact (List.prefix_append p [i]).trans below
    · rintro rfl
      have := below.length_le
      rw [List.length_append, List.length_singleton] at this
      omega

theorem trees (h : Clears roots p m m') (hm : Trees m roots) : Trees m' roots where
  separated := hm.separated.mono (fun _ hr => hr) h.sub
  inMemory t ht := by
    obtain ⟨r, hr, q, hq, ht⟩ := ht
    rw [h.layout.frameCount_eq]
    exact hm.inMemory t ⟨r, hr, q, hq, h.sub r hr q t hq ht⟩
  small := h.layout.2.1 ▸ hm.small

/-- The direct map lies in the kernel half. -/
theorem directMapped (h : Clears roots p m m') (small : m.totalMem.toNat < 2 ^ 47)
    (hr : root ∈ roots) (mapped : DirectMapped m root) : DirectMapped m' root := by
  intro f hf
  rw [h.layout.frameCount_eq] at hf
  obtain ⟨pt, hpt⟩ := mapped f hf
  refine ⟨pt, (h.keeps root hr _ (pathOf_length _).le ?_).trans hpt⟩
  have count := frameCount_lt small
  exact fun off => direct_upper (show f < 2 ^ 35 by omega) off.1

theorem clearable (h : Clears roots p m m') (hm : Clearable roots m) : Clearable roots m' where
  trees := h.trees hm.trees
  current := by rw [h.layout.1]; exact hm.current
  mapped := by
    rw [h.layout.1]
    exact h.directMapped hm.trees.small hm.current hm.mapped

end Clears

/-! ## One table -/

@[simp] theorem dropReference_ram (m : Memory) (a : U64) : (dropReference m a).ram = m.ram := by
  unfold dropReference
  dsimp only
  split <;> rfl

theorem Trees.of_ram (hm : Trees m roots) (ram : m'.ram = m.ram)
    (total : m'.totalMem = m.totalMem) : Trees m' roots := by
  have same (r : Nat) (q : List (Fin 512)) : m'.tableAt r q = m.tableAt r q := by
    unfold Memory.tableAt Memory.tables
    rw [ram]
  refine ⟨hm.separated.mono (fun _ hr => hr) fun r _ q u _ hu => (same r q).symm.trans hu,
    fun u hu => ?_, total ▸ hm.small⟩
  obtain ⟨r, hr, q, hq, hu⟩ := hu
  unfold frameCount
  rw [total]
  exact hm.inMemory u ⟨r, hr, q, hq, (same r q).symm.trans hu⟩

@[simp] theorem dropReference_tableAt (m : Memory) (a : U64) (r : Nat) (q : List (Fin 512)) :
    (dropReference m a).tableAt r q = m.tableAt r q := by
  unfold Memory.tableAt Memory.tables
  rw [dropReference_ram]

theorem dropReference_trees (hm : Trees m roots) (a : U64) : Trees (dropReference m a) roots :=
  hm.of_ram (dropReference_ram m a) (dropReference_layout m a).2.1

theorem freePage_cases (m : Memory) (page : PageDetails) :
    freedPage m page = m ∨
      freedPage m page = (calculatePagePhysicalEntryAddress (dropReference m page.physicalAddress)
          (extractPageEntries page.virtualAddress)).1.setEntry
        (calculatePagePhysicalEntryAddress (dropReference m page.physicalAddress)
          (extractPageEntries page.virtualAddress)).2 0 := by
  unfold freedPage freePage
  split
  · exact .inl rfl
  · exact .inr rfl

theorem freedPage_layout (m : Memory) (page : PageDetails) : SameLayout m (freedPage m page) := by
  rw [freedPage]
  exact freePage_layout m page

theorem freeTable_layout (m : Memory) (table a : U64) : SameLayout m (freeTable m table a) := by
  rw [freeTable]
  exact freedPage_layout m _

section FreeTable

variable (hm : Trees m roots) (current : frameOf m.paging.pml4Physical ∈ roots) {table : U64}
  {pt : Nat}
  (mapped : m.tableAt (frameOf m.paging.pml4Physical) (pathOf (table + virtualMemoryBarrier)) =
    some pt)

include hm current mapped

/-- `free_page` on a table clears at most one entry of the direct map. -/
theorem freeTable_cases (a : U64) :
    freeTable m table a = m ∨ freeTable m table a = (dropReference m a).setEntry
      (pt, (leafIndex (table + virtualMemoryBarrier)).val) 0 := by
  have paging := (dropReference_layout m a).1
  have reached : (dropReference m a).tableAt (frameOf (dropReference m a).paging.pml4Physical)
      (pathOf (table + virtualMemoryBarrier)) = some pt := by
    rw [paging, dropReference_tableAt, mapped]
  have walk := walk_present (dropReference_trees hm a) (by rwa [paging]) reached
  obtain unchanged | cleared := freePage_cases m ⟨⟨0, false⟩, table + virtualMemoryBarrier, a⟩
  · exact .inl unchanged
  · rw [walk] at cleared
    exact .inr cleared

/-- It changes no tree. -/
theorem freeTable_clears (a : U64) : Clears roots p m (freeTable m table a) := by
  obtain unchanged | cleared := freeTable_cases hm current mapped a
  · rw [unchanged]
    exact .refl
  · refine .of_tableAt (freeTable_layout m table a) fun r hr q hq => ?_
    rw [cleared, setEntry_tableAt (dropReference_trees hm a) current (pathOf_length _)
      ((dropReference_tableAt m a _ _).trans mapped) hr hq, dropReference_tableAt]

end FreeTable

/-- Cutting one link of a table above the last level. -/
theorem setEntry_clears (hm : Trees m roots) (hroot : root ∈ roots) (hp : p.length ≤ 2)
    (hpt : m.tableAt root p = some t) {i : Fin 512} (lower : LowerPath (p ++ [i])) :
    Clears roots p m (m.setEntry (t, i.val) 0) where
  layout := ⟨rfl, rfl, rfl⟩
  sub r _ q u _ hu := by
    rw [Memory.tableAt, tables_setEntry] at hu
    exact RadixTree.tableAt_of_write_cut link_zero hu
  keeps r hr q hq off := by
    rw [Memory.tableAt, tables_setEntry]
    refine RadixTree.tableAt_write_of_off fun q' s path hq' => off ?_
    have shorter : q'.length ≤ 3 := by
      rw [path, List.length_append, List.length_cons] at hq
      omega
    obtain rfl := hm.separated.path_eq hr hroot shorter (by omega) hq' hpt
    obtain ⟨j, l, head, below⟩ := lower
    refine ⟨⟨j, l ++ s, ?_, below⟩, ⟨i :: s, path.symm⟩, fun same => ?_⟩
    · rw [path, ← List.singleton_append, ← List.append_assoc, head, List.cons_append]
    · rw [same] at path
      have := congrArg List.length path
      rw [List.length_append, List.length_cons] at this
      omega

/-! ## The loops -/

/-- The entry the search stops at is present. -/
theorem findFirstPresent_link {i : Nat} (found : findFirstPresent m t = i) (hi : i < 512) :
    link (m.tables t ⟨i, hi⟩) = some (pteFrame (m.ram t i)) := by
  refine link_eq_some.mpr ⟨fun absent => ?_, rfl⟩
  replace absent : m.ram t i &&& 1 = 0 := absent
  cases search : (List.range 513).find? fun i => tableWord m t i &&& 1 == 1 with
  | none =>
    rw [findFirstPresent, search] at found
    exact absurd found (Nat.ne_of_gt hi)
  | some j =>
    obtain rfl : j = i := by rw [← found, findFirstPresent, search, Option.getD_some]
    have present := List.find?_some search
    rw [tableWord, if_pos hi, absent] at present
    cases present

/-- One turn of a loop: what hangs below the entry `i` of the table `t` is torn down, the table
behind it given back, and the entry cleared. -/
theorem clearEntry_clears (hm : Clearable roots m) (hp : p.length ≤ 2)
    (hpt : m.tableAt (frameOf m.paging.pml4Physical) p = some t) {i : Fin 512} {e a : U64}
    (present : link (m.tables t i) = some (pteFrame e)) (lower : LowerPath (p ++ [i]))
    (below : Clears roots (p ++ [i]) m m') :
    Clears roots p m ((freeTable m' (pteAddr e) a).setEntry (t, i.val) 0) := by
  have hpi : (p ++ [i]).length ≤ 3 := by
    rw [List.length_append, List.length_singleton]
    omega
  have table : m.tableAt (frameOf m.paging.pml4Physical) (p ++ [i]) = some (pteFrame e) :=
    RadixTree.tableAt_concat_eq_some.mpr ⟨t, hpt, present⟩
  have bound := hm.trees.inMemory _ ⟨_, hm.current, _, hpi, table⟩
  have cleared := below.clearable hm
  obtain ⟨pt, mapped⟩ := cleared.mapped (pteFrame e) (below.layout.frameCount_eq ▸ bound)
  rw [← pteAddr_eq] at mapped
  have freed : Clears roots p m' (freeTable m' (pteAddr e) a) :=
    freeTable_clears cleared.trees cleared.current mapped a
  have sofar := below.above.trans freed
  have reached : (freeTable m' (pteAddr e) a).tableAt (frameOf m.paging.pml4Physical) p = some t :=
    (sofar.keeps _ hm.current p (by omega) fun off => off.2.2 rfl).trans hpt
  exact sofar.trans (setEntry_clears (sofar.trees hm.trees) hm.current hp reached lower)

theorem LowerPath.append (h : LowerPath p) (q : List (Fin 512)) : LowerPath (p ++ q) := by
  obtain ⟨i, s, rfl, lower⟩ := h
  exact ⟨i, s ++ q, rfl, lower⟩

theorem clearPD_clears {fuel pd : Nat} (hm : Clearable roots m) (hp : p.length = 2)
    (lower : LowerPath p) (hpd : m.tableAt (frameOf m.paging.pml4Physical) p = some pd)
    (h : clearPD fuel m pd = some m') : Clears roots p m m' := by
  induction fuel generalizing m with
  | zero => cases h
  | succ fuel ih =>
    rw [clearPD] at h
    dsimp only at h
    generalize found : findFirstPresent m pd = i at h
    split at h
    next hi =>
      have turn := clearEntry_clears hm hp.le hpd (findFirstPresent_link found hi)
        (lower.append _) .refl (a := pteAddr (m.ram pd i))
      have kept := (turn.keeps _ hm.current p (by omega) fun off => off.2.2 rfl).trans hpd
      rw [← turn.layout.1] at kept
      exact turn.trans (ih (turn.clearable hm) kept h)
    next =>
      cases h
      exact .refl

theorem clearPDPT_clears {fuel pdpt : Nat} (hm : Clearable roots m) (hp : p.length = 1)
    (lower : LowerPath p) (hpdpt : m.tableAt (frameOf m.paging.pml4Physical) p = some pdpt)
    (h : clearPDPT fuel m pdpt = some m') : Clears roots p m m' := by
  induction fuel generalizing m with
  | zero => cases h
  | succ fuel ih =>
    rw [clearPDPT] at h
    dsimp only at h
    generalize found : findFirstPresent m pdpt = i at h
    split at h
    next hi =>
      simp only [Option.bind_eq_bind, Option.bind_eq_some_iff] at h
      obtain ⟨m₁, h₁, h⟩ := h
      have link := findFirstPresent_link found hi
      have table := RadixTree.tableAt_concat_eq_some.mpr ⟨pdpt, hpdpt, link⟩
      have below := clearPD_clears hm (by simp [hp]) (lower.append _) table h₁
      have turn := clearEntry_clears hm (by omega) hpdpt link (lower.append _) below
        (a := pteAddr (m₁.ram pdpt i))
      have kept := (turn.keeps _ hm.current p (by omega) fun off => off.2.2 rfl).trans hpdpt
      rw [← turn.layout.1] at kept
      exact turn.trans (ih (turn.clearable hm) kept h)
    next =>
      cases h
      exact .refl

theorem clearPML4_clears {fuel pml4 : Nat} (hm : Clearable roots m)
    (root : frameOf m.paging.pml4Physical = pml4) (h : clearPML4 fuel m pml4 = some m') :
    Clears roots [] m m' := by
  induction fuel generalizing m with
  | zero => cases h
  | succ fuel ih =>
    rw [clearPML4] at h
    dsimp only at h
    generalize found : findFirstPresent m pml4 = i at h
    split at h
    next hi =>
      simp only [Option.bind_eq_bind, Option.bind_eq_some_iff] at h
      obtain ⟨m₁, h₁, h⟩ := h
      have start : m.tableAt (frameOf m.paging.pml4Physical) [] = some pml4 := congrArg some root
      have link := findFirstPresent_link found (hi.trans (by decide))
      have table := RadixTree.tableAt_concat_eq_some.mpr ⟨pml4, start, link⟩
      have lower : LowerPath ([] ++ [⟨i, hi.trans (by decide)⟩]) :=
        ⟨_, [], rfl, Nat.not_le.mpr hi⟩
      have below := clearPDPT_clears hm rfl lower table h₁
      have turn := clearEntry_clears (p := []) hm (Nat.zero_le 2) start link lower below
        (a := pteAddr (m₁.ram pml4 i))
      have kept := root
      rw [← turn.layout.1] at kept
      exact turn.trans (ih (turn.clearable hm) kept h)
    next =>
      cases h
      exact .refl

/-! ## The PML4 -/

/-- A PML4 is no table of another address space. -/
theorem zeroFrame_tableAt (hm : Trees m roots) {r : Nat} (hroot : root ∈ roots) (hr : r ∈ roots)
    (other : r ≠ root) (hq : q.length ≤ 3) : (m.zeroFrame root).tableAt r q = m.tableAt r q := by
  refine RadixTree.tableAt_congr (fun q' u hq' hu j => ?_) hq
  have distinct : u ≠ root := by
    rintro rfl
    obtain rfl := hm.separated.path_eq hr hroot hq'.le (by simp) hu RadixTree.tableAt_nil
    exact other (Option.some.inj hu)
  simp [Memory.tables, zeroFrame, distinct]

theorem zeroFrame_trees (hm : Trees m roots) (hroot : root ∈ roots) :
    Trees (m.zeroFrame root) (roots \ {root}) where
  separated := hm.separated.mono (fun _ hr => hr.1) fun _ hr _ _ hq hu =>
    (zeroFrame_tableAt hm hroot hr.1 hr.2 hq).symm.trans hu
  inMemory u hu := by
    obtain ⟨r, hr, q, hq, hu⟩ := hu
    exact hm.inMemory u ⟨r, hr.1, q, hq, (zeroFrame_tableAt hm hroot hr.1 hr.2 hq).symm.trans hu⟩
  small := hm.small

/-- An offset within a page does not change the path of an address of the direct map. -/
theorem pathOf_direct (a : U64) (ha : frameOf a < 2 ^ 35) :
    pathOf (a + virtualMemoryBarrier) = pathOf (physOf (frameOf a) + virtualMemoryBarrier) := by
  have barrier : virtualMemoryBarrier.toNat = 0xffff800000000000 := rfl
  have left : (a + virtualMemoryBarrier).toNat = a.toNat + 0xffff800000000000 := by
    rw [BitVec.toNat_add, barrier, Nat.mod_eq_of_lt]
    unfold frameOf at ha
    omega
  have right : (physOf (frameOf a) + virtualMemoryBarrier).toNat =
      frameOf a * 0x1000 + 0xffff800000000000 := by
    rw [BitVec.toNat_add, physOf_toNat (by omega), barrier, Nat.mod_eq_of_lt]
    omega
  simp only [pathOf, left, right, List.cons.injEq, Fin.mk.injEq, and_true]
  unfold frameOf
  omega

/-- The PML4 is given back by way of the kernel's direct map. -/
theorem freeRoot_tables {pml4 : U64} {pt : Nat} (hm : Trees m roots)
    (current : frameOf m.paging.pml4Physical ∈ roots)
    (mapped : m.tableAt (frameOf m.paging.pml4Physical) (pathOf (pml4 + virtualMemoryBarrier)) =
      some pt) (hf : f ≠ pt) (j : Fin 512) :
    (freeTable (physAddr m (pml4 + virtualMemoryBarrier)).1 pml4
      (physAddr m (pml4 + virtualMemoryBarrier)).2).tables f j = m.tables f j := by
  have word : m.wordAt (frameOf m.paging.pml4Physical) (pathOf (pml4 + virtualMemoryBarrier))
      (leafIndex (pml4 + virtualMemoryBarrier)) =
        some (m.tables pt (leafIndex (pml4 + virtualMemoryBarrier))) := by
    rw [Memory.wordAt_eq, mapped, Option.map_some]
  obtain ⟨a, address, -⟩ := physAddr_present hm current word
  rw [address]
  obtain unchanged | cleared := freeTable_cases hm current mapped a
  · rw [unchanged]
  · rw [cleared, tables_setEntry, RadixTree.write_of_ne_table hf]
    unfold Memory.tables
    rw [dropReference_ram]

/-- The end of the tear-down, in the address space of the kernel. -/
theorem zeroed_tables {pml4 : U64} {pt : Nat} (hm : Trees m roots) (hroot : frameOf pml4 ∈ roots)
    (kernel : frameOf m.paging.pml4Physical ∈ roots)
    (user : frameOf m.paging.pml4Physical ≠ frameOf pml4)
    (mapped : m.tableAt (frameOf m.paging.pml4Physical) (pathOf (pml4 + virtualMemoryBarrier)) =
      some pt) (j : Fin 512) :
    (freeTable (physAddr (m.zeroFrame (frameOf pml4)) (pml4 + virtualMemoryBarrier)).1 pml4
      (physAddr (m.zeroFrame (frameOf pml4)) (pml4 + virtualMemoryBarrier)).2).tables
        (frameOf pml4) j = 0 := by
  have reached := (zeroFrame_tableAt hm hroot kernel user (pathOf_length _).le).trans mapped
  have distinct : frameOf pml4 ≠ pt := by
    rintro same
    exact hm.separated.leaf_ne kernel hroot (pathOf_length _) (q := []) (by simp) mapped
      (congrArg some same)
  have current : frameOf (m.zeroFrame (frameOf pml4)).paging.pml4Physical ∈
      roots \ {frameOf pml4} := ⟨kernel, user⟩
  rw [freeRoot_tables (zeroFrame_trees hm hroot) current reached distinct]
  simp [Memory.tables, zeroFrame]

/-- After the tear-down the PML4 is empty, the kernel half included. -/
theorem teardown_spec {fuel : Nat} {pml4 : U64} (hm : Clearable roots (memSetCr3 m pml4))
    (kernel : frameOf m.paging.kernelPML4Physical ∈ roots)
    (mapped : DirectMapped m (frameOf m.paging.kernelPML4Physical))
    (user : frameOf m.paging.kernelPML4Physical ≠ frameOf pml4)
    (h : teardown fuel m pml4 = some m') (j : Fin 512) : m'.tables (frameOf pml4) j = 0 := by
  simp only [teardown, Option.bind_eq_bind, Option.bind_eq_some_iff] at h
  obtain ⟨m₁, h₁, h⟩ := h
  have cleared := clearPML4_clears hm rfl h₁
  have trees := cleared.trees hm.trees
  have paging : m₁.paging.kernelPML4Physical = m.paging.kernelPML4Physical := by
    rw [cleared.layout.1]
    rfl
  have count := frameCount_lt trees.small
  have small : frameOf pml4 < frameCount m₁ :=
    trees.inMemory _ ⟨_, hm.current, [], by simp, RadixTree.tableAt_nil⟩
  obtain ⟨pt, hpt⟩ := cleared.directMapped hm.trees.small kernel mapped (frameOf pml4) small
  rw [← pathOf_direct pml4 (by omega), ← paging] at hpt
  rw [← paging] at kernel user
  obtain rfl := Option.some.inj h
  exact zeroed_tables (m := memSetCr3 m₁ m₁.paging.kernelPML4Physical)
    (trees.of_ram rfl rfl) hm.current kernel user hpt j

end ChudOS
