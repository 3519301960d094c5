import ChudOS.Library.RadixTree
import ChudOS.LowLevel.MemoryFrame
import ChudOS.LowLevel.PageEntry
import Mathlib.Data.Finset.Card

/-!
# Page tables as radix trees

The address spaces are the trees of their PML4 frames. They are separated up to the kernel half,
which they share. `Extends` says what a walk that allocates the missing tables does to all trees
and to the rest of memory.

## Main definitions

* `Forest` — the page tables of the live address spaces are separated, marked and inside memory.
* `Trees` — the same without the marks, as it is while an address space is torn down.
* `Free`, `HasFree` — frames the allocator may hand out, and how many there are.
* `Extends` — the missing tables on one path have been installed and nothing else has changed.
-/

namespace ChudOS

open Memory

namespace Memory

/-- RAM as a memory of tables. -/
def tables (m : Memory) : Nat → Fin 512 → U64 := fun f i => m.ram f i

/-- The page table reached from the frame `root` along a path. -/
def tableAt (m : Memory) (root : Nat) (path : List (Fin 512)) : Option Nat :=
  RadixTree.tableAt link m.tables root path

/-- The page-table entry at a path of three and a last index. -/
def wordAt (m : Memory) (root : Nat) (path : List (Fin 512)) (last : Fin 512) : Option U64 :=
  RadixTree.wordAt link m.tables root path last

/-- `mem_GetBit` by frame: used, dirty or kernel-owned. -/
def marked (m : Memory) (f : Nat) : Bool := (m.physFrames f).flags &&& 0b111 != 0

/-- The allocator may hand out the frame. -/
def Free (m : Memory) (f : Nat) : Prop := f < frameCount m ∧ m.marked f = false

/-- 1 for a page table that is missing. -/
def absent (m : Memory) (root : Nat) (path : List (Fin 512)) : Nat :=
  if (m.tableAt root path).isSome then 0 else 1

/-- At least `n` frames are free. -/
def HasFree (m : Memory) (n : Nat) : Prop := ∃ s : Finset Nat, n ≤ s.card ∧ ∀ f ∈ s, m.Free f

end Memory

/-- Indices of the PML4 that belong to the kernel. -/
def kernelHalf (i : Fin 512) : Prop := 256 ≤ i.val

instance (i : Fin 512) : Decidable (kernelHalf i) := inferInstanceAs (Decidable (256 ≤ i.val))

/-- The frame serves as a PML4, PDPT, PD or PT of one of the address spaces. -/
def IsTable (m : Memory) (roots : Set Nat) (t : Nat) : Prop :=
  ∃ r ∈ roots, ∃ p, p.length ≤ 3 ∧ m.tableAt r p = some t

/-- The page tables of the address spaces `roots` are separated, marked and inside memory. -/
structure Forest (m : Memory) (roots : Set Nat) : Prop where
  separated : RadixTree.Separated link m.tables 3 roots kernelHalf
  marked : ∀ t, IsTable m roots t → m.marked t = true
  inMemory : ∀ t, IsTable m roots t → t < frameCount m
  small : m.totalMem.toNat < 2 ^ 47

/-- The page tables of the address spaces `roots` are separated and inside memory. -/
structure Trees (m : Memory) (roots : Set Nat) : Prop where
  separated : RadixTree.Separated link m.tables 3 roots kernelHalf
  inMemory : ∀ t, IsTable m roots t → t < frameCount m
  small : m.totalMem.toNat < 2 ^ 47

theorem Forest.trees {m : Memory} {roots : Set Nat} (h : Forest m roots) : Trees m roots :=
  ⟨h.separated, h.inMemory, h.small⟩

variable {m m' m'' : Memory} {roots : Set Nat} {root t n f : Nat} {p path : List (Fin 512)}

/-- The page tables of the address space `root`, with their paths. -/
def Memory.reached (m : Memory) (root : Nat) : List (List (Fin 512) × Nat) :=
  RadixTree.reached link (List.finRange 512) m.tables root 3

/-- The invariant can be checked on the lists of page tables. -/
theorem Forest.of_reached {rs : List Nat}
    (separated : ∀ r ∈ rs, ∀ r' ∈ rs, ∀ a ∈ m.reached r, ∀ b ∈ m.reached r', a.2 = b.2 →
      a.1 = b.1 ∧ (r = r' ∨ ∃ i ∈ a.1.head?, kernelHalf i))
    (tables : ∀ r ∈ rs, ∀ a ∈ m.reached r, m.marked a.2 = true ∧ a.2 < frameCount m)
    (small : m.totalMem.toNat < 2 ^ 47) : Forest m {r | r ∈ rs} := by
  have listed {t : Nat} (ht : IsTable m {r | r ∈ rs} t) :
      ∃ r ∈ rs, ∃ p, (p, t) ∈ m.reached r := by
    obtain ⟨r, hr, p, hp, ht⟩ := ht
    exact ⟨r, hr, p, RadixTree.mem_reached List.mem_finRange hp ht⟩
  refine ⟨RadixTree.Separated.of_reached List.mem_finRange separated, fun t ht => ?_,
    fun t ht => ?_, small⟩
  · obtain ⟨r, hr, p, hp⟩ := listed ht
    exact (tables r hr _ hp).1
  · obtain ⟨r, hr, p, hp⟩ := listed ht
    exact (tables r hr _ hp).2

theorem frameCount_lt (h : m.totalMem.toNat < 2 ^ 47) : frameCount m ≤ 2 ^ 35 := by
  unfold frameCount
  omega

theorem memGetBit_physOf (h : f < 2 ^ 52) : memGetBit m (physOf f) = m.marked f := by
  rw [memGetBit, frameOf_physOf h]
  rfl

theorem Memory.wordAt_eq (m : Memory) (root : Nat) (p : List (Fin 512)) (j : Fin 512) :
    m.wordAt root p j = (m.tableAt root p).map fun t => m.tables t j := rfl

/-! ## Free frames -/

/-- The scan finds a free frame if there is one. -/
theorem findNextFreePhysical_free (small : m.totalMem.toNat < 2 ^ 47) (h : m.HasFree 1) :
    m.Free (frameOf (findNextFreePhysical m)) ∧
      findNextFreePhysical m = physOf (frameOf (findNextFreePhysical m)) := by
  have count := frameCount_lt small
  obtain ⟨s, hs, free⟩ := h
  obtain ⟨f, hf⟩ := Finset.card_pos.mp hs
  obtain ⟨hfc, hfm⟩ := free f hf
  cases found : (List.range (frameCount m)).find? fun f => !memGetBit m (physOf f) with
  | none =>
    have bit := List.find?_eq_none.mp found f (List.mem_range.mpr hfc)
    rw [memGetBit_physOf (by omega), hfm] at bit
    exact absurd rfl bit
  | some g =>
    have hg := List.mem_range.mp (List.mem_of_find?_eq_some found)
    have bit := List.find?_some found
    rw [memGetBit_physOf (by omega)] at bit
    have result : findNextFreePhysical m = physOf g := by
      unfold findNextFreePhysical
      rw [found]
    rw [result, frameOf_physOf (by omega)]
    exact ⟨⟨hg, by simpa using bit⟩, rfl⟩

theorem Memory.HasFree.mono (h : m.HasFree n) {k : Nat} (hk : k ≤ n) : m.HasFree k := by
  obtain ⟨s, hs, free⟩ := h
  exact ⟨s, hk.trans hs, free⟩

theorem Memory.absent_of_none (h : m.tableAt root p = none) : m.absent root p = 1 := by
  rw [Memory.absent, h]
  rfl

theorem Memory.absent_le_one (m : Memory) (root : Nat) (p : List (Fin 512)) :
    m.absent root p ≤ 1 := by
  unfold Memory.absent
  split_ifs <;> omega

/-- Taking one frame away costs at most one free frame. -/
theorem Memory.HasFree.erase (h : m.HasFree (n + 1)) (taken : Nat)
    (same : ∀ f, f ≠ taken → m.Free f → m'.Free f) : m'.HasFree n := by
  obtain ⟨s, hs, free⟩ := h
  refine ⟨s.erase taken, ?_, fun f hf => ?_⟩
  · have := Finset.pred_card_le_card_erase (s := s) (a := taken)
    omega
  · obtain ⟨hne, hfs⟩ := Finset.mem_erase.mp hf
    exact same f hne (free f hfs)

/-! ## One missing table -/

theorem tables_setEntry (m : Memory) (i : Fin 512) (x : U64) :
    (m.setEntry (t, i.val) x).tables = RadixTree.write m.tables t i x := by
  funext u j
  by_cases hu : u = t
  · subst hu
    by_cases hj : j = i
    · subst hj; simp [tables, setEntry]
    · have hv : j.val ≠ i.val := fun h => hj (Fin.ext h)
      rw [RadixTree.write_of_ne_index hj]
      simp [tables, setEntry, hv]
  · rw [RadixTree.write_of_ne_table hu]
    simp [tables, setEntry, hu]

/-- The memory after `EnsureEntry` has installed a table. -/
def withTable (m : Memory) (s : Slot) (flags : U8) : Memory :=
  let new := findNextFreePhysical m
  ((m.setFlags (frameOf new) 0b101).zeroFrame (frameOf new)).setEntry s
    (new ||| flags.setWidth 64 ||| 1)

theorem ensureEntry_of_present {s : Slot} (flags : U8) (present : m.entry s &&& 1 ≠ 0)
    (canonical : isCanonical (pteAddr (m.entry s)) = true) : ensureEntry m s flags = m := by
  unfold ensureEntry
  dsimp only
  rw [if_neg]
  rintro (h | h)
  · exact present h
  · rw [canonical] at h; cases h

theorem ensureEntry_of_absent {s : Slot} (flags : U8) (absent : m.entry s &&& 1 = 0) :
    ensureEntry m s flags = withTable m s flags := by
  unfold ensureEntry
  dsimp only
  rw [if_pos (.inl absent)]
  rfl

/-! ## What a walk may change -/

/-- From `m` to `m'` tables that were missing on `path` from `root` have been installed in free
frames, empty but for the path, and nothing else has changed. -/
structure Extends (roots : Set Nat) (root : Nat) (path : List (Fin 512)) (m m' : Memory) :
    Prop where
  layout : SameLayout m m'
  forest : Forest m' roots
  keeps : ∀ r ∈ roots, ∀ p t, p.length ≤ 3 → m.tableAt r p = some t → m'.tableAt r p = some t
  fresh : ∀ r ∈ roots, ∀ p t, p.length ≤ 3 → m'.tableAt r p = some t →
    m.tableAt r p = some t ∨ m.Free t
  zero : ∀ r ∈ roots, ∀ p t, p.length ≤ 3 → m'.tableAt r p = some t → m.Free t →
    ∀ j : Fin 512, ¬p ++ [j] <+: path → m'.tables t j = 0
  ram : ∀ f (j : Fin 512), m.marked f = true →
    (link (m.tables f j) = none → ∀ p, p ++ [j] <+: path → m.tableAt root p ≠ some f) →
      m'.tables f j = m.tables f j
  refcount : ∀ f, (m'.physFrames f).refcount = (m.physFrames f).refcount
  flags : ∀ f, (m'.physFrames f).flags = (m.physFrames f).flags ∨
    m.Free f ∧ IsTable m' roots f ∧ (m'.physFrames f).flags = 0b101

theorem Memory.Free.not_marked (h : m.Free f) : ¬m.marked f = true := by
  rw [h.2]
  exact Bool.false_ne_true

namespace Extends

theorem refl (h : Forest m roots) : Extends roots root path m m where
  layout := .refl
  forest := h
  keeps _ _ _ _ _ ht := ht
  fresh _ _ _ _ _ ht := .inl ht
  zero r hr p t hp ht free := absurd (h.marked t ⟨r, hr, p, hp, ht⟩) free.not_marked
  ram _ _ _ _ := rfl
  refcount _ := rfl
  flags _ := .inl rfl

theorem frameCount_eq (h : Extends roots root path m m') : frameCount m' = frameCount m := by
  unfold frameCount
  rw [h.layout.2.1]

theorem marked (h : Extends roots root path m m') (hf : m.marked f = true) :
    m'.marked f = true := by
  obtain same | ⟨free, -, -⟩ := h.flags f
  · rwa [Memory.marked, same]
  · exact absurd hf free.not_marked

theorem free_of_free (h : Extends roots root path m m') (hf : m'.Free f) : m.Free f := by
  refine ⟨h.frameCount_eq ▸ hf.1, ?_⟩
  by_contra hm
  exact hf.not_marked (h.marked (by simpa using hm))

/-- A table stays one. -/
theorem isTable (h : Extends roots root path m m') (hf : IsTable m roots f) :
    IsTable m' roots f := by
  obtain ⟨r, hr, p, hp, ht⟩ := hf
  exact ⟨r, hr, p, hp, h.keeps r hr p f hp ht⟩

theorem absent_le (h : Extends roots root path m m') {r : Nat} (hr : r ∈ roots) (hp : p.length ≤ 3) :
    m'.absent r p ≤ m.absent r p := by
  cases ht : m.tableAt r p with
  | none => exact Memory.absent_of_none ht ▸ m'.absent_le_one r p
  | some t => simp [Memory.absent, h.keeps r hr p t hp ht]

/-- Memory in use that is no page table keeps its contents. -/
theorem data (h : Extends roots root path m m') (hr : root ∈ roots) (hpath : path.length ≤ 3)
    (hf : m.marked f = true) (ht : ¬IsTable m roots f) (j : Fin 512) :
    m'.tables f j = m.tables f j := by
  refine h.ram f j hf fun _ p hp hpf => ht ⟨root, hr, p, ?_, hpf⟩
  have := hp.length_le
  rw [List.length_append, List.length_singleton] at this
  omega

/-- An entry of the last level stays, or appears as zero with its page table. -/
theorem word (h : Extends roots root path m m') (hm : Forest m roots) (hroot : root ∈ roots)
    (hpath : path.length ≤ 3) {r : Nat} (hr : r ∈ roots) (hp : p.length = 3) (j : Fin 512) :
    m'.wordAt r p j = m.wordAt r p j ∨ m.wordAt r p j = none ∧ m'.wordAt r p j = some 0 := by
  have prefix_lt {q : List (Fin 512)} (hq : q ++ [j] <+: path) : q.length < 3 := by
    have := hq.length_le
    rw [List.length_append, List.length_singleton] at this
    omega
  rw [Memory.wordAt_eq, Memory.wordAt_eq]
  cases ht : m.tableAt r p with
  | some t =>
    have same : m'.tables t j = m.tables t j := by
      refine h.ram t j (hm.marked t ⟨r, hr, p, hp.le, ht⟩) fun _ q hq => ?_
      exact hm.separated.leaf_ne hr hroot hp (prefix_lt hq) ht
    rw [h.keeps r hr p t hp.le ht, Option.map_some, Option.map_some, same]
    exact .inl rfl
  | none =>
    cases ht' : m'.tableAt r p with
    | none => exact .inl rfl
    | some t =>
      obtain hold | free := h.fresh r hr p t hp.le ht'
      · rw [ht] at hold; cases hold
      · have zero := h.zero r hr p t hp.le ht' free j fun hq => by
          have := prefix_lt hq
          omega
        exact .inr ⟨rfl, by rw [Option.map_some, zero]⟩

/-- Two walks, the second one along a longer path. -/
theorem trans {path' : List (Fin 512)} (h : Extends roots root path m m')
    (g : Extends roots root path' m' m'') (hpre : path <+: path') (hpath : path'.length ≤ 3)
    (hroot : root ∈ roots) : Extends roots root path' m m'' where
  layout := h.layout.trans g.layout
  forest := g.forest
  keeps r hr p t hp ht := g.keeps r hr p t hp (h.keeps r hr p t hp ht)
  fresh r hr p t hp ht := by
    obtain ht' | free := g.fresh r hr p t hp ht
    · exact h.fresh r hr p t hp ht'
    · exact .inr (h.free_of_free free)
  zero r hr p t hp ht free j hj := by
    obtain ht' | free' := g.fresh r hr p t hp ht
    · have first := h.zero r hr p t hp ht' free j fun hq => hj (hq.trans hpre)
      rw [g.ram t j (h.forest.marked t ⟨r, hr, p, hp, ht'⟩), first]
      intro _ q hq hqt
      have hql := hq.length_le
      rw [List.length_append, List.length_singleton] at hql
      have same := h.forest.separated.path_eq hr hroot hp (by omega) ht' hqt
      exact hj (same ▸ hq)
    · exact g.zero r hr p t hp ht free' j hj
  ram f j hf hlink := by
    have first := h.ram f j hf fun hl q hq => hlink hl q (hq.trans hpre)
    rw [g.ram f j (h.marked hf), first]
    intro hl q hq hqf
    have hql := hq.length_le
    rw [List.length_append, List.length_singleton] at hql
    obtain hqf' | free := h.fresh root hroot q f (by omega) hqf
    · exact hlink (first ▸ hl) q hq hqf'
    · exact free.not_marked hf
  refcount f := (g.refcount f).trans (h.refcount f)
  flags f := by
    obtain same | ⟨free, table, five⟩ := g.flags f
    · obtain same' | ⟨free, table, five⟩ := h.flags f
      · exact .inl (same.trans same')
      · exact .inr ⟨free, g.isTable table, same.trans five⟩
    · exact .inr ⟨h.free_of_free free, table, five⟩

end Extends

/-! ## Installing one table -/

section Install

variable {i : Fin 512} (flags : U8)

/-- The words after an installation in the free frame `n`. -/
theorem withTable_tables (hn : n < 2 ^ 52) (found : findNextFreePhysical m = physOf n) :
    (withTable m (t, i.val) flags).tables =
      RadixTree.write (Function.update m.tables n fun _ => 0) t i
        (physOf n ||| flags.setWidth 64 ||| 1) := by
  have zeroed : ((m.setFlags n 0b101).zeroFrame n).tables =
      Function.update m.tables n fun _ => 0 := by
    funext u j
    by_cases hu : u = n
    · subst hu; simp [Memory.tables, zeroFrame]
    · simp [Memory.tables, zeroFrame, hu]
  simp only [withTable, found, frameOf_physOf hn]
  rw [tables_setEntry, zeroed]

theorem withTable_physFrames (hn : n < 2 ^ 52) (found : findNextFreePhysical m = physOf n)
    (s : Slot) : (withTable m s flags).physFrames =
      Function.update m.physFrames n { m.physFrames n with flags := 0b101 } := by
  simp only [withTable, found, frameOf_physOf hn]
  rfl

variable (hm : Forest m roots) (free : m.Free n) (found : findNextFreePhysical m = physOf n)
  (ht : IsTable m roots t) (absent : link (m.tables t i) = none)

include hm free in
theorem Forest.ne_free {u : Nat} (hu : IsTable m roots u) : u ≠ n :=
  fun h => free.not_marked (h ▸ hm.marked u hu)

include hm free in
theorem Forest.free_lt : n < 2 ^ 35 := by
  have := frameCount_lt hm.small
  have := free.1
  omega

include hm free in
/-- Emptying a free frame changes no tree. -/
theorem Forest.tableAt_zero {r : Nat} (hr : r ∈ roots) (hp : p.length ≤ 3) :
    RadixTree.tableAt link (Function.update m.tables n fun _ => 0) r p = m.tableAt r p := by
  refine RadixTree.tableAt_congr (fun q u hq hu j => ?_) hp
  rw [Function.update_of_ne (hm.ne_free free ⟨r, hr, q, hq.le, hu⟩)]

include hm free found ht absent

/-- The trees after an installation: one path has been added. -/
theorem withTable_tableAt {r : Nat} (hr : r ∈ roots) (hp : p.length ≤ 3) {s : Nat} :
    (withTable m (t, i.val) flags).tableAt r p = some s ↔
      m.tableAt r p = some s ∨ ∃ q, p = q ++ [i] ∧ m.tableAt r q = some t ∧ s = n := by
  have hn := hm.free_lt free
  have distinct := hm.ne_free free ht
  rw [Memory.tableAt, withTable_tables flags (by omega) found,
    RadixTree.tableAt_write_install (fun j => by rw [Function.update_self]; rfl) distinct.symm
    (by rw [Function.update_of_ne distinct]; exact absent) (link_tableEntry (by omega) flags),
    hm.tableAt_zero free hr hp]
  refine or_congr_right (exists_congr fun q => and_congr_right fun hq => ?_)
  rw [hm.tableAt_zero free hr]
  rw [hq, List.length_append] at hp
  omega

omit ht absent in
/-- A word that is neither in the fresh table nor the one that links to it. -/
theorem withTable_word {u : Nat} (hu : u ≠ n) {j : Fin 512} (hj : ¬(u = t ∧ j = i)) :
    (withTable m (t, i.val) flags).tables u j = m.tables u j := by
  have hn := hm.free_lt free
  rw [withTable_tables flags (by omega) found, RadixTree.write_of_ne hj, Function.update_of_ne hu]

theorem withTable_forest (hp : p.length < 3) (hroot : root ∈ roots)
    (hpt : m.tableAt root p = some t) : Forest (withTable m (t, i.val) flags) roots := by
  have hn := hm.free_lt free
  have distinct := hm.ne_free free ht
  have marks {f : Nat} (h : m.marked f = true ∨ f = n) :
      (withTable m (t, i.val) flags).marked f = true := by
    rw [Memory.marked, withTable_physFrames flags (by omega) found]
    by_cases hf : f = n
    · subst hf; simp
    · rw [Function.update_of_ne hf]; exact h.resolve_right hf
  have tables {f : Nat} (h : IsTable (withTable m (t, i.val) flags) roots f) :
      IsTable m roots f ∨ f = n := by
    obtain ⟨r, hr, q, hq, hf⟩ := h
    rw [withTable_tableAt flags hm free found ht absent hr hq] at hf
    obtain hf | ⟨q', -, -, rfl⟩ := hf
    · exact .inl ⟨r, hr, q, hq, hf⟩
    · exact .inr rfl
  refine ⟨?_, fun f hf => marks ((tables hf).imp_left (hm.marked f)), fun f hf => ?_, hm.small⟩
  · rw [withTable_tables flags (by omega) found]
    refine RadixTree.Separated.install (n := n) ?_ (fun j => by rw [Function.update_self]; rfl)
      (by rw [Function.update_of_ne distinct]; exact absent) (link_tableEntry (by omega) flags)
      ⟨root, hroot, p, hp.le, by rw [hm.tableAt_zero free hroot hp.le]; exact hpt⟩
      fun r hr q hq hqn => ?_
    · refine hm.separated.mono (fun _ h => h) fun r hr q u hq hu => ?_
      rwa [hm.tableAt_zero free hr hq] at hu
    · rw [hm.tableAt_zero free hr hq] at hqn
      exact hm.ne_free free ⟨r, hr, q, hq, hqn⟩ rfl
  · obtain hf | rfl := tables hf
    · exact hm.inMemory f hf
    · exact free.1

theorem withTable_extends (hp : p.length < 3) (hroot : root ∈ roots)
    (hpt : m.tableAt root p = some t) :
    Extends roots root (p ++ [i]) m (withTable m (t, i.val) flags) := by
  have hn := hm.free_lt free
  have trees {r : Nat} (hr : r ∈ roots) {q : List (Fin 512)} (hq : q.length ≤ 3) {s : Nat} :=
    withTable_tableAt flags hm free found ht absent hr hq (s := s)
  have hpi : (p ++ [i]).length ≤ 3 := by
    rw [List.length_append, List.length_singleton]
    omega
  have table : IsTable (withTable m (t, i.val) flags) roots n :=
    ⟨root, hroot, p ++ [i], hpi, (trees hroot hpi).mpr (.inr ⟨p, rfl, hpt, rfl⟩)⟩
  refine ⟨⟨rfl, rfl, rfl⟩, withTable_forest flags hm free found ht absent hp hroot hpt,
    fun r hr q u hq hu => (trees hr hq).mpr (.inl hu), fun r hr q u hq hu => ?_,
    fun r hr q u hq hu hfree j hj => ?_, fun f j hf hlink => ?_, fun f => ?_, fun f => ?_⟩
  · obtain hu | ⟨q', -, -, rfl⟩ := (trees hr hq).mp hu
    · exact .inl hu
    · exact .inr free
  · obtain hu | ⟨q', -, -, rfl⟩ := (trees hr hq).mp hu
    · exact absurd (hm.marked u ⟨r, hr, q, hq, hu⟩) hfree.not_marked
    · rw [withTable_tables flags (by omega) found, RadixTree.write_of_ne_table
        (hm.ne_free free ht).symm, Function.update_self]
  · have hfn : f ≠ n := fun h => free.not_marked (h ▸ hf)
    refine withTable_word flags hm free found hfn fun ⟨hft, hji⟩ => ?_
    subst hft hji
    exact hlink absent p (List.prefix_refl _) hpt
  · rw [withTable_physFrames flags (by omega) found]
    by_cases hf : f = n
    · subst hf; simp
    · rw [Function.update_of_ne hf]
  · rw [withTable_physFrames flags (by omega) found]
    by_cases hf : f = n
    · subst hf; exact .inr ⟨free, table, by simp⟩
    · rw [Function.update_of_ne hf]; exact .inl rfl

end Install

/-! ## The walk -/

section Walk

variable {i : Fin 512} {e : PageEntries} {v : U64}

/-- With its table present `EnsureEntry` does nothing. -/
theorem ensureEntry_of_tableAt (hm : Trees m roots) (hroot : root ∈ roots) (hp : p.length < 3)
    (hpt : m.tableAt root p = some t) {u : Nat} (hu : m.tableAt root (p ++ [i]) = some u)
    (flags : U8) :
    ensureEntry m (t, i.val) flags = m ∧ pteFrame (m.entry (t, i.val)) = u := by
  have hlink : link (m.tables t i) = some u := by
    rw [Memory.tableAt, RadixTree.tableAt_concat_eq_some] at hu
    obtain ⟨t', ht', hl⟩ := hu
    obtain rfl : t = t' := Option.some.inj (hpt.symm.trans ht')
    exact hl
  obtain ⟨present, frame⟩ := link_eq_some.mp hlink
  have hpi : (p ++ [i]).length ≤ 3 := by
    rw [List.length_append, List.length_singleton]
    omega
  have bound := hm.inMemory u ⟨root, hroot, p ++ [i], hpi, hu⟩
  have count := frameCount_lt hm.small
  refine ⟨ensureEntry_of_present flags present ?_, frame⟩
  rw [pteAddr_eq, show pteFrame (m.entry (t, i.val)) = u from frame]
  exact isCanonical_physOf (by omega)

/-- A table costs at most one free frame. -/
theorem withTable_hasFree (flags : U8) (s : Slot) (h : m.HasFree (n + 1)) :
    (withTable m s flags).HasFree n := by
  refine h.erase (frameOf (findNextFreePhysical m)) fun f hf free => ⟨free.1, ?_⟩
  have same : (withTable m s flags).physFrames f = m.physFrames f :=
    Function.update_of_ne hf _ _
  rw [Memory.marked, same]
  exact free.2

/-- One level of the walk: afterwards the table behind the entry is there. A free frame is needed
only for a table that was missing. -/
theorem ensureEntry_spec (hm : Forest m roots) (hroot : root ∈ roots) (hp : p.length < 3)
    (hpt : m.tableAt root p = some t) (i : Fin 512)
    (enough : m.HasFree (n + m.absent root (p ++ [i]))) (flags : U8) :
    Extends roots root (p ++ [i]) m (ensureEntry m (t, i.val) flags) ∧
      (ensureEntry m (t, i.val) flags).HasFree n ∧
      (ensureEntry m (t, i.val) flags).tableAt root (p ++ [i]) =
        some (pteFrame ((ensureEntry m (t, i.val) flags).entry (t, i.val))) := by
  cases hl : link (m.tables t i) with
  | some u =>
    have hu : m.tableAt root (p ++ [i]) = some u :=
      RadixTree.tableAt_concat_eq_some.mpr ⟨t, hpt, hl⟩
    obtain ⟨same, frame⟩ := ensureEntry_of_tableAt hm.trees hroot hp hpt hu flags
    rw [same, frame]
    exact ⟨.refl hm, enough.mono (Nat.le_add_right _ _), hu⟩
  | none =>
    have missing : m.tableAt root (p ++ [i]) = none := by
      refine Option.eq_none_iff_forall_ne_some.mpr fun u hu => ?_
      obtain ⟨t', ht', hl'⟩ := RadixTree.tableAt_concat_eq_some.mp hu
      obtain rfl : t = t' := Option.some.inj (hpt.symm.trans ht')
      cases hl.symm.trans hl'
    rw [Memory.absent_of_none missing] at enough
    obtain ⟨free, found⟩ := findNextFreePhysical_free hm.small (enough.mono (by omega))
    have table : IsTable m roots t := ⟨root, hroot, p, hp.le, hpt⟩
    have none : m.entry (t, i.val) &&& 1 = 0 := link_eq_none.mp hl
    rw [ensureEntry_of_absent flags none]
    refine ⟨withTable_extends flags hm free found table hl hp hroot hpt,
      withTable_hasFree flags _ enough, ?_⟩
    have hpi : (p ++ [i]).length ≤ 3 := by
      rw [List.length_append, List.length_singleton]
      omega
    have count := hm.free_lt free
    have written := withTable_tables (t := t) (i := i) flags (by omega) found
    have entry : (withTable m (t, i.val) flags).entry (t, i.val) =
        physOf (frameOf (findNextFreePhysical m)) ||| flags.setWidth 64 ||| 1 := by
      have := congrFun (congrFun written t) i
      rwa [RadixTree.write_self] at this
    rw [entry, (link_eq_some.mp (link_tableEntry (by omega) flags)).2]
    exact (withTable_tableAt flags hm free found table hl hroot hpi).mpr (.inr ⟨p, rfl, hpt, rfl⟩)

/-- How many page tables are missing on the way to `v`. -/
def Memory.missing (m : Memory) (root : Nat) (v : U64) : Nat :=
  m.absent root ((pathOf v).take 1) + m.absent root ((pathOf v).take 2) + m.absent root (pathOf v)

theorem Memory.missing_le (m : Memory) (root : Nat) (v : U64) : m.missing root v ≤ 3 := by
  have first := m.absent_le_one root ((pathOf v).take 1)
  have second := m.absent_le_one root ((pathOf v).take 2)
  have third := m.absent_le_one root (pathOf v)
  unfold Memory.missing
  omega

/-- The slot a walk of `path` with the last index `j` ends at. -/
theorem walk_indices (v : U64) :
    ∃ a b c d : Fin 512, pathOf v = [a, b, c] ∧ leafIndex v = d ∧
      (extractPageEntries v).pml4Entry.toNat = a ∧ (extractPageEntries v).pdptEntry.toNat = b ∧
      (extractPageEntries v).pdEntry.toNat = c ∧ (extractPageEntries v).ptEntry.toNat = d :=
  ⟨_, _, _, _, rfl, rfl, index_toNat v 39, index_toNat v 30, index_toNat v 21, index_toNat v 12⟩

/-- `CalculatePagePhysicalEntryAddress` installs the tables that are missing, for which there must be
free frames, and ends in the page table of the address. -/
theorem walk_spec (hm : Forest m roots) (hroot : frameOf m.paging.pml4Physical ∈ roots) (v : U64)
    (enough : m.HasFree (n + m.missing (frameOf m.paging.pml4Physical) v)) :
    ∃ m' pt, calculatePagePhysicalEntryAddress m (extractPageEntries v) =
        (m', (pt, (leafIndex v).val)) ∧
      Extends roots (frameOf m.paging.pml4Physical) (pathOf v) m m' ∧ m'.HasFree n ∧
      m'.tableAt (frameOf m.paging.pml4Physical) (pathOf v) = some pt := by
  obtain ⟨a, b, c, d, hpath, hleaf, ha, hb, hc, hd⟩ := walk_indices v
  let flags : U8 := (if (extractPageEntries v).pml4Entry < 256 then userFlags
    else kernelFlags).setWidth 8
  let cost (p : List (Fin 512)) : Nat := m.absent (frameOf m.paging.pml4Physical) p
  have enough₁ : m.HasFree (n + cost [a, b, c] + cost [a, b] + cost [a]) := by
    simp only [Memory.missing, hpath, List.take_succ_cons, List.take_zero] at enough
    exact enough.mono (by dsimp only [cost]; omega)
  obtain ⟨ext₁, free₁, table₁⟩ := ensureEntry_spec (p := []) hm hroot (by simp)
    RadixTree.tableAt_nil a enough₁ flags
  have first := ext₁.absent_le hroot (p := [a, b]) (by simp)
  have later := ext₁.absent_le hroot (p := [a, b, c]) (by simp)
  obtain ⟨ext₂, free₂, table₂⟩ := ensureEntry_spec ext₁.forest hroot (by simp) table₁ b
    (free₁.mono (Nat.add_le_add_left first _)) flags
  have last := ext₂.absent_le hroot (p := [a, b, c]) (by simp)
  obtain ⟨ext₃, free₃, table₃⟩ := ensureEntry_spec ext₂.forest hroot (by simp) table₂ c
    (free₂.mono (Nat.add_le_add_left (last.trans later) _)) flags
  rw [hpath, hleaf]
  refine ⟨_, _, ?_, (ext₁.trans ext₂ (by simp) (by simp) hroot).trans ext₃ (by simp) (by simp) hroot,
    free₃, table₃⟩
  simp only [calculatePagePhysicalEntryAddress, ha, hb, hc, hd]
  rfl

/-- With all tables present the walk only looks. -/
theorem walk_present (hm : Trees m roots) (hroot : frameOf m.paging.pml4Physical ∈ roots)
    {pt : Nat} (hpt : m.tableAt (frameOf m.paging.pml4Physical) (pathOf v) = some pt) :
    calculatePagePhysicalEntryAddress m (extractPageEntries v) =
      (m, (pt, (leafIndex v).val)) := by
  obtain ⟨a, b, c, d, hpath, hleaf, ha, hb, hc, hd⟩ := walk_indices v
  let flags : U8 := (if (extractPageEntries v).pml4Entry < 256 then userFlags
    else kernelFlags).setWidth 8
  rw [hpath] at hpt
  obtain ⟨t₂, h₂, hl₃⟩ := RadixTree.tableAt_concat_eq_some (p := [a, b]).mp hpt
  obtain ⟨t₁, h₁, hl₂⟩ := RadixTree.tableAt_concat_eq_some (p := [a]).mp h₂
  obtain ⟨same₁, frame₁⟩ := ensureEntry_of_tableAt (p := []) hm hroot (by simp)
    RadixTree.tableAt_nil h₁ flags
  obtain ⟨same₂, frame₂⟩ := ensureEntry_of_tableAt (p := [a]) hm hroot (by simp) h₁ h₂ flags
  obtain ⟨same₃, frame₃⟩ := ensureEntry_of_tableAt (p := [a, b]) hm hroot (by simp) h₂ hpt flags
  rw [hleaf]
  simp only [calculatePagePhysicalEntryAddress, ha, hb, hc, hd]
  simp only [flags] at same₁ frame₁ same₂ frame₂ same₃ frame₃
  rw [same₁, frame₁, same₂, frame₂, same₃, frame₃]

/-- `phys_addr` of a mapped page finds its frame, and changes nothing. -/
theorem physAddr_present (hm : Trees m roots) (hroot : frameOf m.paging.pml4Physical ∈ roots)
    {e : U64} (he : m.wordAt (frameOf m.paging.pml4Physical) (pathOf v) (leafIndex v) = some e) :
    ∃ a, physAddr m v = (m, a) ∧ frameOf a = pteFrame e := by
  rw [Memory.wordAt_eq, Option.map_eq_some_iff] at he
  obtain ⟨pt, hpt, rfl⟩ := he
  have walk := walk_present (v := v &&& ~~~0xFFF) hm hroot (by rwa [pathOf_page])
  refine ⟨_, ?_, frameOf_offset (m.tables pt (leafIndex v)) v⟩
  unfold physAddr
  rw [walk, leafIndex_page]
  rfl

end Walk

/-! ## Changes outside the page tables -/

section Outside

variable (htables : ∀ f, IsTable m roots f → m'.tables f = m.tables f)

include htables

/-- Tables that keep their words keep their paths. -/
theorem tableAt_of_tables {r : Nat} (hr : r ∈ roots) (hp : p.length ≤ 3) :
    m'.tableAt r p = m.tableAt r p :=
  RadixTree.tableAt_congr (fun q u hq hu j => by rw [htables u ⟨r, hr, q, hq.le, hu⟩]) hp

theorem wordAt_of_tables {r : Nat} (hr : r ∈ roots) (hp : p.length ≤ 3) (j : Fin 512) :
    m'.wordAt r p j = m.wordAt r p j := by
  rw [Memory.wordAt_eq, Memory.wordAt_eq, tableAt_of_tables htables hr hp]
  cases hu : m.tableAt r p with
  | none => rfl
  | some u => rw [Option.map_some, Option.map_some, htables u ⟨r, hr, p, hp, hu⟩]

theorem isTable_of_tables : IsTable m' roots t ↔ IsTable m roots t := by
  refine exists_congr fun r => and_congr_right fun hr => exists_congr fun p =>
    and_congr_right fun hp => ?_
  rw [tableAt_of_tables htables hr hp]

theorem Forest.of_tables (hm : Forest m roots) (htotal : m'.totalMem = m.totalMem)
    (hmarked : ∀ t, IsTable m roots t → m'.marked t = true) : Forest m' roots where
  separated := hm.separated.mono (fun _ h => h) fun _ hr _ _ hp hu =>
    (tableAt_of_tables htables hr hp).symm.trans hu
  marked t ht := hmarked t ((isTable_of_tables htables).mp ht)
  inMemory t ht := by
    have := hm.inMemory t ((isTable_of_tables htables).mp ht)
    unfold frameCount at this ⊢
    rwa [htotal]
  small := htotal ▸ hm.small

end Outside

/-! ## Writing a page-table entry of the last level -/

section Leaf

variable {pt : Nat} {d : Fin 512} {x : U64}

section Trees

variable (hm : Trees m roots) (hroot : root ∈ roots) (hp : p.length = 3)
  (hpt : m.tableAt root p = some pt)

include hm hroot hp hpt

/-- No table hangs on a page-table entry. -/
theorem setEntry_tableAt {r : Nat} (hr : r ∈ roots) {q : List (Fin 512)} (hq : q.length ≤ 3) :
    (m.setEntry (pt, d.val) x).tableAt r q = m.tableAt r q := by
  rw [Memory.tableAt, tables_setEntry]
  exact RadixTree.tableAt_write_leaf
    (fun q hq => hm.separated.leaf_ne hroot hr hp hq hpt) hq

theorem setEntry_isTable : IsTable (m.setEntry (pt, d.val) x) roots t ↔ IsTable m roots t := by
  refine exists_congr fun r => and_congr_right fun hr => exists_congr fun q =>
    and_congr_right fun hq => ?_
  rw [setEntry_tableAt hm hroot hp hpt hr hq]

theorem setEntry_trees : Trees (m.setEntry (pt, d.val) x) roots where
  separated := hm.separated.mono (fun _ h => h) fun _ hr _ _ hq hu =>
    (setEntry_tableAt hm hroot hp hpt hr hq).symm.trans hu
  inMemory u hu := hm.inMemory u ((setEntry_isTable hm hroot hp hpt).mp hu)
  small := hm.small

end Trees

variable (hm : Forest m roots) (hroot : root ∈ roots) (hp : p.length = 3)
  (hpt : m.tableAt root p = some pt)

include hm hroot hp hpt

theorem setEntry_forest : Forest (m.setEntry (pt, d.val) x) roots where
  separated := (setEntry_trees hm.trees hroot hp hpt).separated
  marked u hu := hm.marked u ((setEntry_isTable hm.trees hroot hp hpt).mp hu)
  inMemory := (setEntry_trees hm.trees hroot hp hpt).inMemory
  small := hm.small

/-- The entry written is found. -/
theorem setEntry_word : (m.setEntry (pt, d.val) x).wordAt root p d = some x := by
  rw [Memory.wordAt_eq, setEntry_tableAt hm.trees hroot hp hpt hroot hp.le, hpt, Option.map_some,
    tables_setEntry, RadixTree.write_self]

/-- Every entry found at other indices stays. -/
theorem setEntry_word_of_ne {r : Nat} (hr : r ∈ roots) {q : List (Fin 512)} (hq : q.length = 3)
    {j : Fin 512} (hne : ¬(q = p ∧ j = d)) :
    (m.setEntry (pt, d.val) x).wordAt r q j = m.wordAt r q j := by
  rw [Memory.wordAt_eq, Memory.wordAt_eq, setEntry_tableAt hm.trees hroot hp hpt hr hq.le]
  cases hu : m.tableAt r q with
  | none => rfl
  | some u =>
    rw [Option.map_some, Option.map_some, tables_setEntry, RadixTree.write_of_ne]
    rintro ⟨rfl, rfl⟩
    exact hne ⟨hm.separated.path_eq hr hroot hq.le hp.le hu hpt, rfl⟩

/-- In the lower half, so does every entry of another address space. -/
theorem setEntry_word_of_root {r : Nat} (hr : r ∈ roots) (hrr : r ≠ root)
    (lower : ∀ i q, p = i :: q → ¬kernelHalf i) {q : List (Fin 512)} (hq : q.length = 3)
    (j : Fin 512) : (m.setEntry (pt, d.val) x).wordAt r q j = m.wordAt r q j := by
  rw [Memory.wordAt_eq, Memory.wordAt_eq, setEntry_tableAt hm.trees hroot hp hpt hr hq.le]
  cases hu : m.tableAt r q with
  | none => rfl
  | some u =>
    rw [Option.map_some, Option.map_some, tables_setEntry, RadixTree.write_of_ne]
    rintro ⟨rfl, rfl⟩
    obtain ⟨rfl, rfl | ⟨i, s, rfl, hi⟩⟩ := hm.separated hr hroot hq.le hp.le hu hpt
    · exact hrr rfl
    · exact lower i s rfl hi

end Leaf

/-- The page-table entry that the CPU finds in the address space `root`. -/
def walkEntry (m : Memory) (root : Nat) (v : U64) : Option U64 :=
  (pageWalk m root (extractPageEntries v)).map m.entry

/-- The CPU's walk follows the tree. -/
theorem walkEntry_eq (m : Memory) (root : Nat) (v : U64) :
    walkEntry m root v = m.wordAt root (pathOf v) (leafIndex v) := by
  obtain ⟨i, j, l, d, hpath, hleaf, hi, hj, hl, hd⟩ := walk_indices v
  rw [hpath, hleaf, Memory.wordAt_eq]
  simp only [walkEntry, pageWalk, hi, hj, hl, hd, Option.bind_eq_bind, Memory.tableAt,
    RadixTree.tableAt]
  simp only [Memory.tables]
  cases link (m.ram root i) with
  | none => rfl
  | some t₁ =>
    simp only [Option.bind_some]
    cases link (m.ram t₁ j) with
    | none => rfl
    | some t₂ =>
      simp only [Option.bind_some]
      cases link (m.ram t₂ l) <;> rfl

theorem translate_eq (m : Memory) (a : U64) : translate m a =
    (m.wordAt (frameOf m.paging.cr3) (pathOf a) (leafIndex a)).bind link := by
  rw [← walkEntry_eq, walkEntry, translate]
  cases pageWalk m (frameOf m.paging.cr3) (extractPageEntries a) <;> rfl

end ChudOS
