import ChudOS.LowLevel.E820
import ChudOS.LowLevel.Malloc

/-!
# The direct map

The kernel reaches a frame at its physical address plus `VIRTUAL_MEMORY_BARRIER`. `InitMem` makes
the page tables for this, and `malloc` maps its pages into the same range of addresses.

## Main definitions

* `directPage` — where the kernel looks for a frame.
* `found` — the frame that the CPU finds at an address.
* `lacking` — how many of the page tables of a set are missing.
-/

namespace ChudOS

open Memory

variable {m m' : Memory} {roots : Set Nat} {root f g n k start : Nat} {a v : U64}
  {t : TaskMemoryDefinition}

/-! ## Addresses -/

/-- Where the kernel looks for a frame. -/
def directPage (f : Nat) : U64 := physOf f + virtualMemoryBarrier

/-- The part of an address that the four tables are indexed by. -/
def pageNumber (a : U64) : Nat := a.toNat / 2 ^ 12 % 2 ^ 36

theorem directPage_toNat (lt : f < 2 ^ 35) :
    (directPage f).toNat = 0xffff800000000000 + f * 0x1000 := by
  have barrier : virtualMemoryBarrier.toNat = 0xffff800000000000 := rfl
  rw [directPage, BitVec.toNat_add, physOf_toNat (by omega), barrier]
  omega

theorem pageNumber_directPage (lt : f < 2 ^ 35) : pageNumber (directPage f) = 2 ^ 35 + f := by
  rw [pageNumber, directPage_toNat lt]
  omega

theorem directPage_high (lt : f < 2 ^ 35) : virtualMemoryBarrier ≤ directPage f := by
  have barrier : virtualMemoryBarrier.toNat = 0xffff800000000000 := rfl
  rw [BitVec.le_def, directPage_toNat lt, barrier]
  omega

/-- The indices of an address determine its page. -/
theorem pageNumber_eq_iff : pageNumber a = pageNumber v ↔ pathOf a = pathOf v ∧ leafIndex a = leafIndex v := by
  have split (x : Nat) : x / 2 ^ 12 % 2 ^ 36 = x / 2 ^ 39 % 512 * 2 ^ 27 + x / 2 ^ 30 % 512 * 2 ^ 18 +
      x / 2 ^ 21 % 512 * 2 ^ 9 + x / 2 ^ 12 % 512 := by omega
  simp only [pageNumber, pathOf, leafIndex, List.cons.injEq, and_true, Fin.mk.injEq]
  constructor
  · intro same
    omega
  · rintro ⟨⟨first, second, third⟩, last⟩
    rw [split, split, first, second, third, last]

/-- The next page of a task whose regions start at the barrier. -/
theorem nextPageAddress_direct (base : t.baseVirtualAddress = virtualMemoryBarrier)
    (small : t.pageCount.toNat + 1 < 2 ^ 35) :
    nextPageAddress t = directPage (t.pageCount.toNat + 1) := by
  have barrier : virtualMemoryBarrier.toNat = 0xffff800000000000 := rfl
  have page : (0x1000 : U64).toNat = 0x1000 := rfl
  apply BitVec.eq_of_toNat_eq
  rw [directPage_toNat small, nextPageAddress, base, BitVec.toNat_add, BitVec.toNat_add,
    BitVec.toNat_mul, barrier, page]
  omega

/-! ## What the CPU finds -/

/-- The frame that the CPU finds at an address in the address space `root`. -/
def found (m : Memory) (root : Nat) (a : U64) : Option Nat :=
  (m.wordAt root (pathOf a) (leafIndex a)).bind link

theorem translate_found (m : Memory) (a : U64) :
    translate m a = found m (frameOf m.paging.cr3) a := translate_eq m a

theorem found_congr (same : pageNumber a = pageNumber v) : found m root a = found m root v := by
  obtain ⟨path, leaf⟩ := pageNumber_eq_iff.mp same
  rw [found, found, path, leaf]

/-- New tables show nothing by themselves. -/
theorem Extends.found {path : List (Fin 512)} (h : Extends roots root path m m')
    (hm : Forest m roots) (hroot : root ∈ roots) (hpath : path.length ≤ 3) {r : Nat} (hr : r ∈ roots)
    (a : U64) : found m' r a = found m r a := by
  unfold ChudOS.found
  obtain same | ⟨none, zero⟩ := h.word hm hroot hpath hr (pathOf_length a) (leafIndex a)
  · rw [same]
  · rw [none, zero]
    rfl

/-- One entry shows one page. -/
theorem found_setEntry (hm : Forest m roots) (hroot : root ∈ roots) {pt : Nat}
    (hpt : m.tableAt root (pathOf v) = some pt) {x : U64} :
    found (m.setEntry (pt, (leafIndex v).val) x) root a =
      if pageNumber a = pageNumber v then link x else found m root a := by
  unfold found
  split_ifs with same
  · obtain ⟨path, leaf⟩ := pageNumber_eq_iff.mp same
    rw [path, leaf, setEntry_word hm hroot (pathOf_length v) hpt, Option.bind_some]
  · rw [setEntry_word_of_ne hm hroot (pathOf_length v) hpt hroot (pathOf_length a)
      fun h => same (pageNumber_eq_iff.mpr h)]

/-! ## Tables that are missing -/

section Lacking

variable (S : Finset (List (Fin 512)))

/-- How many of the page tables of a set are missing. -/
def lacking (m : Memory) (root : Nat) (S : Finset (List (Fin 512))) : Nat :=
  (S.filter fun p => m.tableAt root p = none).card

/-- The tables on the way to an address belong to the set. -/
def Covers (S : Finset (List (Fin 512))) (v : U64) : Prop :=
  ∀ k, 0 < k → k ≤ 3 → (pathOf v).take k ∈ S

variable {S}

/-- The tables that are missing on the way to an address, as a set. -/
theorem missing_eq_card (m : Memory) (root : Nat) (v : U64) : m.missing root v =
    (({(pathOf v).take 1, (pathOf v).take 2, pathOf v} : Finset (List (Fin 512))).filter
      fun p => m.tableAt root p = none).card := by
  have one (p : List (Fin 512)) : m.absent root p = if m.tableAt root p = none then 1 else 0 := by
    unfold Memory.absent
    cases m.tableAt root p <;> rfl
  rw [Memory.missing, one, one, one, Finset.filter_insert, Finset.filter_insert,
    Finset.filter_singleton]
  split_ifs <;> simp [pathOf]

/-- On the way to a table no table is missing. -/
theorem present_of_prefix {p : List (Fin 512)} {pt : Nat} (walked : m.tableAt root p = some pt) (k : Nat) :
    m.tableAt root (p.take k) ≠ none := by
  intro none
  rw [← List.take_append_drop k p, Memory.tableAt, RadixTree.tableAt_append] at walked
  rw [Memory.tableAt] at none
  rw [none] at walked
  cases walked

theorem missing_subset (covers : Covers S v) :
    (({(pathOf v).take 1, (pathOf v).take 2, pathOf v} : Finset (List (Fin 512))).filter
      fun p => m.tableAt root p = none) ⊆ S.filter fun p => m.tableAt root p = none := by
  intro p hp
  simp only [Finset.mem_filter, Finset.mem_insert, Finset.mem_singleton] at hp ⊢
  obtain ⟨rfl | rfl | rfl, none⟩ := hp
  · exact ⟨covers 1 (by omega) (by omega), none⟩
  · exact ⟨covers 2 (by omega) (by omega), none⟩
  · exact ⟨covers 3 (by omega) le_rfl, none⟩

theorem missing_le_lacking (covers : Covers S v) : m.missing root v ≤ lacking m root S := by
  rw [missing_eq_card]
  exact Finset.card_le_card (missing_subset covers)

/-- A walk takes frames for tables that are missing no longer. -/
theorem missing_add_lacking (covers : Covers S v) (short : ∀ p ∈ S, p.length ≤ 3)
    (keeps : ∀ p u, p.length ≤ 3 → m.tableAt root p = some u → m'.tableAt root p = some u)
    {pt : Nat} (walked : m'.tableAt root (pathOf v) = some pt) :
    m.missing root v + lacking m' root S ≤ lacking m root S := by
  have present (k : Nat) := present_of_prefix walked k
  rw [missing_eq_card, lacking, lacking, ← Finset.card_union_of_disjoint]
  · refine Finset.card_le_card (Finset.union_subset (missing_subset covers) fun p hp => ?_)
    obtain ⟨hp, none⟩ := Finset.mem_filter.mp hp
    refine Finset.mem_filter.mpr ⟨hp, ?_⟩
    cases before : m.tableAt root p with
    | none => rfl
    | some u => rw [keeps p u (short p hp) before] at none; cases none
  · refine Finset.disjoint_left.mpr fun p on rest => ?_
    simp only [Finset.mem_filter, Finset.mem_insert, Finset.mem_singleton] at on rest
    obtain ⟨rfl | rfl | rfl, -⟩ := on
    · exact present 1 rest.2
    · exact present 2 rest.2
    · exact present 3 rest.2

end Lacking

/-! ## Mapping physical memory -/

section Mapping

variable {S : Finset (List (Fin 512))}

/-- What mapping pages of the set `S` keeps. -/
structure MapsOn (roots : Set Nat) (root : Nat) (S : Finset (List (Fin 512))) (m m' : Memory) :
    Prop where
  layout : SameLayout m m'
  forest : Forest m' roots
  enough : m'.HasFree (lacking m' root S)
  dirty : ∀ f, (m'.physFrames f).flags &&& 0b10 = (m.physFrames f).flags &&& 0b10

theorem MapsOn.trans {m'' : Memory} (h : MapsOn roots root S m m') (g : MapsOn roots root S m' m'') :
    MapsOn roots root S m m'' :=
  ⟨h.layout.trans g.layout, g.forest, g.enough, fun f => (g.dirty f).trans (h.dirty f)⟩

/-- The dirty frames are known from the start. -/
theorem Extends.dirty {path : List (Fin 512)} (h : Extends roots root path m m') (f : Nat) :
    (m'.physFrames f).flags &&& 0b10 = (m.physFrames f).flags &&& 0b10 := by
  have unmarked : ∀ x : U8, (x &&& 0b111 != 0) = false → (0b101 : U8) &&& 0b10 = x &&& 0b10 := by
    decide
  obtain same | ⟨free, -, five⟩ := h.flags f
  · rw [same]
  · rw [five]
    exact unmarked _ free.2

theorem lacking_setEntry (hm : Forest m roots) (hroot : root ∈ roots) {p : List (Fin 512)}
    (hp : p.length = 3) {pt : Nat} (hpt : m.tableAt root p = some pt) (d : Fin 512) (x : U64)
    (short : ∀ p ∈ S, p.length ≤ 3) : lacking (m.setEntry (pt, d.val) x) root S = lacking m root S := by
  unfold lacking
  congr 1
  refine Finset.filter_congr fun q hq => ?_
  rw [setEntry_tableAt hm.trees hroot hp hpt hroot (short q hq)]

variable (current : frameOf m.paging.pml4Physical = root) (hroot : root ∈ roots)
  (short : ∀ p ∈ S, p.length ≤ 3)

include current hroot short

theorem allocPage_direct (hm : Forest m roots) (lt : f < frameCount m)
    (clean : (m.physFrames f).flags &&& 0b10 ≠ 0b10) (covers : Covers S (directPage f))
    (enough : m.HasFree (lacking m root S)) :
    ∃ m', allocPage m ⟨⟨kernelFlags, false⟩, directPage f, physOf f⟩ = some (m', directPage f) ∧
      MapsOn roots root S m m' ∧
      ∀ a, found m' root a = if pageNumber a = 2 ^ 35 + f then some f else found m root a := by
  subst current
  have count := frameCount_lt hm.small
  let page : PageDetails := ⟨⟨kernelFlags, false⟩, directPage f, physOf f⟩
  have high : ¬ directPage f < virtualMemoryBarrier := BitVec.not_lt.mpr (directPage_high (by omega))
  have uncounted : countReference m page = m := by
    unfold countReference
    dsimp only
    rw [if_neg high]
  have accepted : allocRefused m page = false := by
    simp only [allocRefused, page, frameOf_physOf (show f < 2 ^ 52 by omega), high, decide_false,
      Bool.and_false, Bool.or_false, beq_eq_false_iff_ne]
    exact clean
  have fits : m.missing (frameOf m.paging.pml4Physical) (directPage f) ≤
      lacking m (frameOf m.paging.pml4Physical) S := missing_le_lacking covers
  obtain ⟨m₁, pt, result, ext, free, table⟩ := @allocPage_walk _ _
    (lacking m (frameOf m.paging.pml4Physical) S -
      m.missing (frameOf m.paging.pml4Physical) (directPage f)) page hm hroot
    (by rw [uncounted, Nat.sub_add_cancel fits]; exact enough)
    (physOf_lt_totalMem hm.small lt) accepted
  rw [uncounted] at ext
  have left := missing_add_lacking covers short (ext.keeps _ hroot) table
  refine ⟨_, result, ⟨ext.layout.trans ⟨rfl, rfl, rfl⟩,
    setEntry_forest ext.forest hroot (pathOf_length _) table, ?_, fun g => ?_⟩, fun a => ?_⟩
  · rw [lacking_setEntry ext.forest hroot (pathOf_length _) table _ _ short]
    exact free.mono (by omega)
  · exact ext.dirty g
  · rw [found_setEntry ext.forest hroot table, ext.found hm hroot (pathOf_length _).le hroot,
      link_pageEntry (show f < 2 ^ 40 by omega) rfl (show kernelFlags.toNat < 0x1000 by decide)
        (show kernelFlags.getLsbD 0 = true by decide)]
    rw [pageNumber_directPage (show f < 2 ^ 35 by omega)]

/-- The frames that the loop maps are those that are not dirty. -/
def ToMap (m : Memory) (start n f : Nat) : Prop :=
  start ≤ f ∧ f < start + n ∧ (m.physFrames f).flags &&& 0b10 ≠ 0b10

theorem mapPhysical_direct (hm : Forest m roots) (top : n ≤ frameCount m - start)
    (covers : ∀ f, start ≤ f → f < start + n → Covers S (directPage f))
    (enough : m.HasFree (lacking m root S)) :
    ∃ m', mapPhysical m (physOf start) n = some m' ∧ MapsOn roots root S m m' ∧
      (∀ f a, ToMap m start n f → pageNumber a = 2 ^ 35 + f → found m' root a = some f) ∧
      ∀ a, (∀ f, ToMap m start n f → pageNumber a ≠ 2 ^ 35 + f) → found m' root a = found m root a := by
  induction n generalizing m start with
  | zero =>
    exact ⟨m, rfl, ⟨.refl, hm, enough, fun _ => rfl⟩, fun f a h => by have := h.1; have := h.2.1; omega,
      fun _ _ => rfl⟩
  | succ n ih =>
    have count := frameCount_lt hm.small
    have next : physOf start + 0x1000 = physOf (start + 1) := by
      have page : (0x1000 : U64).toNat = 0x1000 := rfl
      apply BitVec.eq_of_toNat_eq
      rw [BitVec.toNat_add, physOf_toNat (by omega), physOf_toNat (by omega), page]
      omega
    have later (f : Nat) (lower : start + 1 ≤ f) (upper : f < start + 1 + n) :
        Covers S (directPage f) := covers f (by omega) (by omega)
    simp only [mapPhysical, frameOf_physOf (show start < 2 ^ 52 by omega), next]
    by_cases clean : (m.physFrames start).flags &&& 0b10 = 0b10
    · obtain ⟨m', result, maps, shown, others⟩ := ih current hm (by omega) later enough
      rw [if_neg (not_not.mpr clean)]
      refine ⟨m', result, maps, fun f a h => shown f a ?_, fun a away => others a fun f h => away f ?_⟩
      · have : f ≠ start := fun same => h.2.2 (same ▸ clean)
        exact ⟨by have := h.1; omega, by have := h.2.1; omega, h.2.2⟩
      · exact ⟨by have := h.1; omega, by have := h.2.1; omega, h.2.2⟩
    · obtain ⟨m₁, first, maps₁, found₁⟩ := allocPage_direct current hroot short hm (by omega) clean
        (covers start le_rfl (by omega)) enough
      have same (f : Nat) : ToMap m₁ (start + 1) n f ↔ ToMap m (start + 1) n f := by
        unfold ToMap
        rw [maps₁.dirty]
      have total : frameCount m₁ = frameCount m := by
        unfold frameCount
        rw [maps₁.layout.2.1]
      obtain ⟨m', result, maps, shown, others⟩ := ih (by rw [maps₁.layout.1, current]) maps₁.forest
        (by omega) later maps₁.enough
      rw [if_pos clean]
      refine ⟨m', ?_, maps₁.trans maps, fun f a h place => ?_, fun a away => ?_⟩
      · have : physOf start + virtualMemoryBarrier = directPage start := rfl
        rw [this, first]
        exact result
      · by_cases now : f = start
        · rw [others a fun g hg => by have := hg.1; omega, found₁, if_pos (now ▸ place), now]
        · exact shown f a ((same f).mpr ⟨by have := h.1; omega, by have := h.2.1; omega, h.2.2⟩) place
      · rw [others a fun f h => away f ?_, found₁, if_neg (away start ⟨le_rfl, by omega, clean⟩)]
        have h := (same f).mp h
        exact ⟨by have := h.1; omega, by have := h.2.1; omega, h.2.2⟩

end Mapping

/-! ## Pages of the kernel -/

/-- The next page of the task shows the first free frame; the other pages show what they did. -/
theorem malloc_found (hm : Forest m roots) (hroot : frameOf m.paging.pml4Physical ∈ roots)
    (ht : virtualMemoryBarrier ≤ nextPageAddress t)
    (enough : m.HasFree
      (k + m.missing (frameOf m.paging.pml4Physical) (nextPageAddress t) + 1)) :
    ∃ n m', findNextFreePhysical m = physOf n ∧
      malloc m t = some (m', { t with pageCount := t.pageCount + 1 }, nextPageAddress t) ∧
      KernelPage roots m m' t n ∧ m'.HasFree k ∧
      (∀ f, (m'.physFrames f).flags &&& 0b10 = (m.physFrames f).flags &&& 0b10) ∧
      ∀ a, found m' (frameOf m.paging.pml4Physical) a =
        if pageNumber a = pageNumber (nextPageAddress t) then some n
        else found m (frameOf m.paging.pml4Physical) a := by
  obtain ⟨n, m', first, result, page, free, -⟩ := malloc_kernelPage hm hroot ht enough
  obtain ⟨n', m₁, pt, free', first', ext, -, table, result'⟩ := malloc_spec hm hroot ht enough
  have bound := hm.free_lt page.free
  have bound' := hm.free_lt free'
  obtain rfl : n = n' := by
    rw [← frameOf_physOf (show n < 2 ^ 52 by omega), ← first, first', frameOf_physOf (by omega)]
  obtain rfl : m' = _ := (Prod.mk.inj (Option.some.inj (result.symm.trans result'))).1
  have marked : Forest (m.setFlags n 0b101) roots := setFlags_forest hm (by decide)
  have unmarked : ∀ x : U8, (x &&& 0b111 != 0) = false → (0b101 : U8) &&& 0b10 = x &&& 0b10 := by
    decide
  refine ⟨n, _, first, result, page, free, fun f => (ext.dirty f).trans ?_, fun a => ?_⟩
  · rw [setFlags_physFrames]
    split_ifs with same
    · subst same
      exact unmarked _ free'.2
    · rfl
  · rw [found_setEntry ext.forest hroot table,
      ext.found marked hroot (pathOf_length _).le hroot, mallocPage_link (by omega)]
    rfl

theorem kernelHalf_pageNumber (high : 2 ^ 35 ≤ pageNumber a) : ∃ i p, pathOf a = i :: p ∧ kernelHalf i := by
  refine ⟨_, _, rfl, ?_⟩
  unfold pageNumber at high
  simp only [kernelHalf]
  omega

/-- A new address space shows the kernel's half of the current one. -/
theorem withSpace_found (hroot : frameOf m.paging.pml4Physical ∈ roots) (hn : ¬IsTable m roots n)
    (high : 2 ^ 35 ≤ pageNumber a) :
    found (withSpace m n) n a = found m (frameOf m.paging.pml4Physical) a := by
  obtain ⟨i, p, path, kernel⟩ := kernelHalf_pageNumber high
  have shared : (withSpace m n).tableAt n (pathOf a) =
      (withSpace m n).tableAt (frameOf m.paging.pml4Physical) (pathOf a) := by
    rw [path, Memory.tableAt, Memory.tableAt, RadixTree.tableAt, RadixTree.tableAt,
      withSpace_copy hroot hn i kernel]
  have kept := wordAt_of_tables (withSpace_keeps hroot hn) hroot (pathOf_length a).le (leafIndex a)
  unfold found
  rw [Memory.wordAt_eq, shared, ← Memory.wordAt_eq, kept]

/-- The new address space shows nothing to user programs, and in the kernel's half what the current
one shows, with one more page. -/
theorem createUserMemory_found (hm : Forest m roots)
    (hroot : frameOf m.paging.pml4Physical ∈ roots) (selected : m.paging.cr3 = m.paging.pml4Physical)
    (ht : virtualMemoryBarrier ≤ nextPageAddress t) (enough : m.HasFree (k + 5)) :
    ∃ n m' a, findNextFreePhysical m = physOf n ∧ frameOf a = n ∧
      createUserMemory m t = some (m', { t with pageCount := t.pageCount + 1 }, a) ∧
      NewSpace roots m m' n ∧ m'.HasFree k ∧
      (∀ f, (m'.physFrames f).flags &&& 0b10 = (m.physFrames f).flags &&& 0b10) ∧
      ∀ v, found m' n v = if pageNumber v < 2 ^ 35 then none
        else if pageNumber v = pageNumber (nextPageAddress t) then some n
        else found m (frameOf m.paging.pml4Physical) v := by
  obtain ⟨n, m₁, first, result, page, -, dirty, shown⟩ := malloc_found hm hroot ht enough.spare
  obtain ⟨m', a, created, space, -, free, -⟩ := createUserMemory_spec hm hroot selected ht enough
  have bound := hm.free_lt page.free
  have hroot' : frameOf m₁.paging.pml4Physical ∈ roots := by rwa [page.keeps.layout.1]
  obtain ⟨m₂, va, f, again, target, address⟩ := createUserMemory_cases created
  obtain ⟨rfl, rfl⟩ : m₂ = m₁ ∧ va = nextPageAddress t := by
    have same := Prod.mk.inj (Option.some.inj (again.symm.trans result))
    exact ⟨same.1, (Prod.mk.inj same.2).2⟩
  obtain rfl : f = n := Option.some.inj
    (target.symm.trans (page.translate (show n < 2 ^ 40 by omega) selected))
  obtain ⟨b, look, frame⟩ := page.physAddr (show f < 2 ^ 40 by omega) hroot
  obtain ⟨rfl, rfl⟩ := Prod.mk.inj (look.symm.trans address)
  refine ⟨f, _, b, first, frame, created, frame ▸ space, free, dirty, fun v => ?_⟩
  by_cases low : pageNumber v < 2 ^ 35
  · rw [if_pos low, found, withSpace_empty hroot' page.data]
    · rfl
    · refine ⟨rfl, fun i q h => ?_⟩
      obtain ⟨rfl, -⟩ := List.cons.inj h
      unfold pageNumber at low
      simp only [kernelHalf]
      omega
  · rw [if_neg low, withSpace_found hroot' page.data (not_lt.mp low), page.keeps.layout.1, shown]

end ChudOS
