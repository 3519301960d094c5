import ChudOS.Library.TypedMemory
import ChudOS.LowLevel.FrameMarks
import ChudOS.LowLevel.Teardown

/-!
# Kinds of page tables

Every page table keeps the level and the half of the address space that it was made for. Its frame
belongs to the kernel and is never handed out again, so no function of `Memory.c` can take it for
something else, whatever addresses and flags it is called with.

A guard is a further condition on the words above the last level. `Admits` says that the entries
`EnsureEntry` makes meet it.

## Main definitions

* `TableKind`, `tableScheme` — the levels of the tables, and where their words point.
* `Sound` — the tables are well typed and belong to the kernel.
* `Evolves` — the tables are still sound, and no link of the kernel half is gone.
* `EnsureTakes`, `WalkTakes` — the states in which `FindNextFreePhysical` is called.
-/

namespace ChudOS

open Memory TypedMemory

/-- `kernel` tells the half that the table lies in. -/
inductive TableKind where
  | pml4
  | pdpt (kernel : Bool)
  | pd (kernel : Bool)
  | pt (kernel : Bool)
  deriving DecidableEq

namespace TableKind

/-- The tables that the words of a table point at; those of a page table point at data. -/
def child : TableKind → Fin 512 → Option TableKind
  | .pml4, i => some (.pdpt (decide (kernelHalf i)))
  | .pdpt kernel, _ => some (.pd kernel)
  | .pd kernel, _ => some (.pt kernel)
  | .pt _, _ => none

/-- The word is above the last level and in the half of the kernel. -/
def KernelLink : TableKind → Fin 512 → Prop
  | .pml4, i => kernelHalf i
  | .pdpt kernel, _ => kernel = true
  | .pd kernel, _ => kernel = true
  | .pt _, _ => False

/-- The half of what a word leads to. -/
def half : TableKind → Fin 512 → Bool
  | .pml4, i => decide (kernelHalf i)
  | .pdpt kernel, _ => kernel
  | .pd kernel, _ => kernel
  | .pt kernel, _ => kernel

end TableKind

/-- What a guard demands of a word of a table. -/
abbrev Guard := TableKind → Fin 512 → U64 → Prop

def tableScheme (guard : Guard) : Scheme (Fin 512) U64 TableKind := ⟨link, TableKind.child, guard⟩

/-- The flags of the entries on the way to a page. -/
def tableFlags (kernel : Bool) : U8 := (if kernel then kernelFlags else userFlags).setWidth 8

/-- The guard accepts empty entries and those that `EnsureEntry` makes. -/
structure Admits (guard : Guard) : Prop where
  zero : ∀ k i, guard k i 0
  table : ∀ k i n, guard k i (physOf n ||| (tableFlags (k.half i)).setWidth 64 ||| 1)

abbrev Kinds := Nat → Option TableKind

structure Sound (guard : Guard) (θ : Kinds) (m : Memory) : Prop where
  typed : (tableScheme guard).WellTyped θ m.tables
  owned : ∀ t k, θ t = some k → t ≠ 0 ∧ m.owned t = true
  inMemory : ∀ t k, θ t = some k → t < frameCount m
  small : m.totalMem.toNat < 2 ^ 47
  root : θ (frameOf m.paging.pml4Physical) = some .pml4

/-- From `m` to `m'` no link of the kernel half is lost, but for the roots in `torn`, and tables have
been made only in frames that were not the kernel's. -/
structure Evolves (guard : Guard) (torn : Set Nat) (θ : Kinds) (m : Memory) (θ' : Kinds)
    (m' : Memory) : Prop where
  kinds : KeepsKinds θ θ'
  sound : Sound guard θ' m'
  owned : KeepsOwned m m'
  fresh : ∀ t, θ t = none → θ' t ≠ none → m.owned t = false
  links : ∀ t k, θ t = some k → t ∉ torn → ∀ i, k.KernelLink i → link (m.tables t i) ≠ none →
    m'.tables t i = m.tables t i

variable {guard : Guard} {torn : Set Nat} {θ θ' θ'' : Kinds} {m m' m'' : Memory} {t n pt f : Nat}
  {k c : TableKind} {i : Fin 512} {b : Bool} {v : U64} {page : PageDetails}

namespace Evolves

theorem refl (hm : Sound guard θ m) : Evolves guard torn θ m θ m :=
  ⟨.refl, hm, .of_frames rfl rfl, fun _ h h' => absurd h h', fun _ _ _ _ _ _ _ => rfl⟩

theorem trans (h : Evolves guard torn θ m θ' m') (g : Evolves guard torn θ' m' θ'' m'') :
    Evolves guard torn θ m θ'' m'' where
  kinds := h.kinds.trans g.kinds
  sound := g.sound
  owned := h.owned.trans g.owned
  fresh t ht ht' := by
    by_cases made : θ' t = none
    · have later := g.fresh t made ht'
      obtain ⟨k, hk⟩ := Option.ne_none_iff_exists'.mp ht'
      by_contra before
      rw [h.owned.owned t (g.sound.owned t k hk).1 (by simpa using before)] at later
      cases later
    · exact h.fresh t ht made
  links t k ht off i kernel present := by
    have first := h.links t k ht off i kernel present
    rw [g.links t k (h.kinds t k ht) off i kernel (by rwa [first]), first]

theorem mono {torn' : Set Nat} (h : Evolves guard torn θ m θ' m') (sub : torn ⊆ torn') :
    Evolves guard torn' θ m θ' m' :=
  ⟨h.kinds, h.sound, h.owned, h.fresh,
    fun t k ht off => h.links t k ht (fun ht' => off (sub ht'))⟩

/-- Whatever leaves RAM alone, and the kernel its frames. -/
theorem of_ram (hm : Sound guard θ m) (ram : m'.ram = m.ram) (owned : KeepsOwned m m')
    (paging : m'.paging = m.paging) : Evolves guard torn θ m θ m' := by
  have tables : m'.tables = m.tables := by unfold Memory.tables; rw [ram]
  refine ⟨.refl, ⟨tables ▸ hm.typed, fun t k ht => ?_, fun t k ht => ?_, ?_, ?_⟩, owned,
    fun _ h h' => absurd h h', fun t k _ _ i _ _ => ?_⟩
  · exact ⟨(hm.owned t k ht).1, owned.owned t (hm.owned t k ht).1 (hm.owned t k ht).2⟩
  · have := hm.inMemory t k ht
    unfold frameCount at this ⊢
    rwa [owned.totalMem]
  · rw [owned.totalMem]
    exact hm.small
  · rw [paging]
    exact hm.root
  · rw [tables]

theorem link_eq (h : Evolves guard torn θ m θ' m') (ht : θ t = some k) (off : t ∉ torn)
    (kernel : k.KernelLink i) (present : link (m.tables t i) = some n) :
    link (m'.tables t i) = some n := by
  rw [h.links t k ht off i kernel, present]
  rw [present]
  exact Option.some_ne_none n

end Evolves

/-! ## Words -/

/-- An entry of a page table may be anything. -/
theorem setEntry_evolves (hm : Sound guard θ m) (hpt : θ pt = some (.pt b)) (i : Fin 512) (x : U64) :
    Evolves guard ∅ θ m θ (m.setEntry (pt, i.val) x) := by
  refine ⟨.refl, ⟨?_, hm.owned, hm.inMemory, hm.small, hm.root⟩, .of_frames rfl rfl,
    fun _ h h' => absurd h h', fun t k ht _ j kernel _ => ?_⟩
  · rw [tables_setEntry]
    refine hm.typed.write fun k hk c hc => ?_
    rw [hpt] at hk
    cases hk
    cases hc
  · rw [tables_setEntry, RadixTree.write_of_ne_table]
    rintro rfl
    rw [hpt] at ht
    cases ht
    exact kernel

/-- So may an entry of the lower half be cleared. -/
theorem setEntry_zero_evolves (hg : Admits guard) (hm : Sound guard θ m) (ht : θ t = some k)
    (lower : ¬k.KernelLink i) : Evolves guard ∅ θ m θ (m.setEntry (t, i.val) 0) := by
  refine ⟨.refl, ⟨?_, hm.owned, hm.inMemory, hm.small, hm.root⟩, .of_frames rfl rfl,
    fun _ h h' => absurd h h', fun u k' hu _ j kernel _ => ?_⟩
  · rw [tables_setEntry]
    exact hm.typed.write fun k _ => .of_none (hg.zero k i) link_zero
  · rw [tables_setEntry, RadixTree.write_of_ne]
    rintro ⟨rfl, rfl⟩
    rw [ht] at hu
    cases hu
    exact lower kernel

/-! ## The walk -/

/-- If `EnsureEntry` calls `FindNextFreePhysical`, it does so in a state with `P`. -/
def EnsureTakes (P : Memory → Prop) (m : Memory) (eAddr : Slot) : Prop :=
  m.entry eAddr &&& 1 = 0 ∨ isCanonical (pteAddr (m.entry eAddr)) = false → P m

/-- So do all calls on the way to a page. -/
def WalkTakes (P : Memory → Prop) (m : Memory) (entries : PageEntries) : Prop :=
  let flags : U16 := if entries.pml4Entry < 256 then userFlags else kernelFlags
  let pml4 : Slot := (frameOf m.paging.pml4Physical, entries.pml4Entry.toNat)
  let m₁ := ensureEntry m pml4 (flags.setWidth 8)
  let pdpt : Slot := (pteFrame (m₁.entry pml4), entries.pdptEntry.toNat)
  let m₂ := ensureEntry m₁ pdpt (flags.setWidth 8)
  let pd : Slot := (pteFrame (m₂.entry pdpt), entries.pdEntry.toNat)
  EnsureTakes P m pml4 ∧ EnsureTakes P m₁ pdpt ∧ EnsureTakes P m₂ pd

/-- `FindNextFreePhysical` returns a frame. -/
def HasFrame (m : Memory) : Prop := findNextFreePhysical m ≠ 0

instance : DecidablePred HasFrame := fun _ => inferInstanceAs (Decidable (_ ≠ _))

section Decidable

variable {P : Memory → Prop} [DecidablePred P]

instance (m : Memory) (eAddr : Slot) : Decidable (EnsureTakes P m eAddr) :=
  inferInstanceAs (Decidable (_ → _))

instance (m : Memory) (entries : PageEntries) : Decidable (WalkTakes P m entries) :=
  inferInstanceAs (Decidable (_ ∧ _ ∧ _))

end Decidable

/-- The frame that is found. -/
theorem found_free (small : m.totalMem.toNat < 2 ^ 47) (found : findNextFreePhysical m ≠ 0) :
    ∃ n, n ≠ 0 ∧ n < 2 ^ 35 ∧ m.Free n ∧ findNextFreePhysical m = physOf n := by
  obtain ⟨f, nonzero, inRange, unmarked, frame⟩ := findNextFreePhysical_cases found
  have one : m.HasFree 1 :=
    ⟨{f}, by simp, fun g hg => by rw [Finset.mem_singleton.mp hg]; exact ⟨inRange, unmarked⟩⟩
  obtain ⟨-, phys⟩ := findNextFreePhysical_free small one
  rw [frame] at phys
  have count := frameCount_lt small
  exact ⟨f, nonzero, by omega, ⟨inRange, unmarked⟩, phys⟩

theorem Sound.untyped (hm : Sound guard θ m) (free : m.Free n) : θ n = none := by
  by_contra typed
  obtain ⟨k, hk⟩ := Option.ne_none_iff_exists'.mp typed
  exact free.not_marked (Memory.marked_of_owned (hm.owned n k hk).2)

/-- A table that is missing gets its kind. -/
theorem withTable_evolves (hg : Admits guard) (hm : Sound guard θ m) (ht : θ t = some k)
    (hc : k.child i = some c) (absent : link (m.tables t i) = none)
    (found : findNextFreePhysical m ≠ 0) :
    ∃ θ' u, Evolves guard ∅ θ m θ' (withTable m (t, i.val) (tableFlags (k.half i))) ∧
      link ((withTable m (t, i.val) (tableFlags (k.half i))).tables t i) = some u ∧
      θ' u = some c := by
  obtain ⟨n, nonzero, bound, free, phys⟩ := found_free hm.small found
  have fresh := hm.untyped free
  have distinct {u : Nat} {k : TableKind} (hu : θ u = some k) : u ≠ n := by
    rintro rfl
    rw [fresh] at hu
    cases hu
  have tables := withTable_tables (t := t) (i := i) (tableFlags (k.half i)) (by omega) phys
  have frames := withTable_physFrames (tableFlags (k.half i)) (by omega) phys (t, i.val)
  have pointer := link_tableEntry (n := n) (by omega) (tableFlags (k.half i))
  have emptied : (tableScheme guard).WellTyped θ (Function.update m.tables n fun _ => 0) :=
    hm.typed.of_same fun u k hu => Function.update_of_ne (distinct hu) _ _
  refine ⟨Function.update θ n (some c), n, ⟨.update fresh c, ⟨?_, fun u k' hu => ?_,
    fun u k' hu => ?_, hm.small, ?_⟩, ?_, fun u hu hu' => ?_, fun u k' hu _ j _ present => ?_⟩, ?_,
    Function.update_self n _ θ⟩
  · rw [tables]
    refine emptied.install fresh ht hc (hg.table k i n) pointer fun j => ?_
    rw [Function.update_self]
    exact .of_none (hg.zero c j) link_zero
  · unfold Memory.owned
    rw [frames]
    by_cases new : u = n
    · subst new
      rw [Function.update_self]
      exact ⟨nonzero, (by decide : ((0b101 : U8) &&& 0b100 != 0) = true)⟩
    · rw [Function.update_of_ne new] at hu ⊢
      exact hm.owned u k' hu
  · by_cases new : u = n
    · exact new ▸ free.1
    · rw [Function.update_of_ne new] at hu
      exact hm.inMemory u k' hu
  · exact KeepsKinds.update fresh c _ _ hm.root
  · rw [← ensureEntry_of_absent _ (show m.entry (t, i.val) &&& 1 = 0 from link_eq_none.mp absent)]
    exact (ensureEntry_marks m _ _).toKeepsOwned
  · by_cases new : u = n
    · by_contra kernel
      exact free.not_marked (new ▸ Memory.marked_of_owned (by simpa using kernel))
    · rw [Function.update_of_ne new] at hu'
      exact absurd hu hu'
  · rw [tables, RadixTree.write_of_ne, Function.update_of_ne (distinct hu)]
    rintro ⟨rfl, rfl⟩
    exact present absent
  · rw [tables, RadixTree.write_self, pointer]

/-- With its table present `EnsureEntry` does nothing. -/
theorem Sound.ensureEntry_present (hm : Sound guard θ m) (ht : θ t = some k)
    (hc : k.child i = some c) (present : link (m.tables t i) = some n) (flags : U8) :
    ensureEntry m (t, i.val) flags = m := by
  obtain ⟨bit, frame⟩ := link_eq_some.mp present
  have count := frameCount_lt hm.small
  have bound := hm.inMemory n c (hm.typed.link ht hc present)
  refine ensureEntry_of_present flags (show m.entry (t, i.val) &&& 1 ≠ 0 from bit) ?_
  rw [pteAddr_eq, show pteFrame (m.entry (t, i.val)) = n from frame]
  exact isCanonical_physOf (by omega)

/-- `EnsureEntry` keeps the kinds, and afterwards the table is there. -/
theorem ensureEntry_evolves (hg : Admits guard) (hm : Sound guard θ m) (ht : θ t = some k)
    (hc : k.child i = some c) (finds : EnsureTakes HasFrame m (t, i.val)) :
    ∃ θ' u, Evolves guard ∅ θ m θ' (ensureEntry m (t, i.val) (tableFlags (k.half i))) ∧
      link ((ensureEntry m (t, i.val) (tableFlags (k.half i))).tables t i) = some u ∧
      θ' u = some c := by
  cases present : link (m.tables t i) with
  | some u =>
    rw [hm.ensureEntry_present ht hc present]
    exact ⟨θ, u, .refl hm, present, hm.typed.link ht hc present⟩
  | none =>
    have bit : m.entry (t, i.val) &&& 1 = 0 := link_eq_none.mp present
    rw [ensureEntry_of_absent _ bit]
    exact withTable_evolves hg hm ht hc present (finds (.inl bit))

theorem pteFrame_of_link (h : link (m.tables t i) = some n) : pteFrame (m.entry (t, i.val)) = n :=
  (link_eq_some.mp h).2

/-- The half of an address. -/
def halfOf (v : U64) : Bool := decide (256 ≤ v.toNat / 2 ^ 39 % 512)

theorem walkFlags_eq (v : U64) :
    ((if (extractPageEntries v).pml4Entry < 256 then userFlags else kernelFlags).setWidth 8 : U8) =
      tableFlags (halfOf v) := by
  have index := index_toNat v 39
  have small : (256 : U16).toNat = 256 := rfl
  have iff : (extractPageEntries v).pml4Entry < 256 ↔ v.toNat / 2 ^ 39 % 512 < 256 := by
    rw [BitVec.lt_def, small, ← index]
    rfl
  by_cases low : v.toNat / 2 ^ 39 % 512 < 256
  · have half : halfOf v = false := decide_eq_false (Nat.not_le.mpr low)
    rw [if_pos (iff.mpr low), half]
    rfl
  · have half : halfOf v = true := decide_eq_true (Nat.not_lt.mp low)
    rw [if_neg fun h => low (iff.mp h), half]
    rfl

/-- `CalculatePagePhysicalEntryAddress` ends in a page table of the half of the address. -/
theorem walk_evolves (hg : Admits guard) (hm : Sound guard θ m) (v : U64)
    (finds : WalkTakes HasFrame m (extractPageEntries v)) :
    ∃ θ' m' pt, calculatePagePhysicalEntryAddress m (extractPageEntries v) =
        (m', (pt, (leafIndex v).val)) ∧
      Evolves guard ∅ θ m θ' m' ∧ θ' pt = some (.pt (halfOf v)) ∧
      (halfOf v = true → m'.tableAt (frameOf m.paging.pml4Physical) (pathOf v) = some pt) := by
  obtain ⟨a, b, c, d, hpath, hleaf, ha, hb, hc, hd⟩ := walk_indices v
  have half : decide (kernelHalf a) = halfOf v := by
    simp only [halfOf, kernelHalf, ← ha, extractPageEntries, index_toNat]
  simp only [WalkTakes, ha, hb, hc, walkFlags_eq] at finds
  obtain ⟨finds₁, finds₂, finds₃⟩ := finds
  obtain ⟨θ₁, t₁, ev₁, link₁, kind₁⟩ := ensureEntry_evolves hg hm hm.root
    (i := a) rfl finds₁
  rw [half] at kind₁
  rw [show TableKind.half .pml4 a = halfOf v from half] at ev₁ link₁
  rw [pteFrame_of_link link₁] at finds₂
  simp only [pteFrame_of_link link₁] at finds₃
  obtain ⟨θ₂, t₂, ev₂, link₂, kind₂⟩ := ensureEntry_evolves hg ev₁.sound kind₁
    (i := b) rfl finds₂
  rw [show TableKind.half (.pdpt (halfOf v)) b = halfOf v from rfl] at ev₂ link₂
  rw [pteFrame_of_link link₂] at finds₃
  obtain ⟨θ₃, t₃, ev₃, link₃, kind₃⟩ := ensureEntry_evolves hg ev₂.sound kind₂
    (i := c) rfl finds₃
  rw [show TableKind.half (.pd (halfOf v)) c = halfOf v from rfl] at ev₃ link₃
  refine ⟨θ₃, _, t₃, ?_, (ev₁.trans ev₂).trans ev₃, kind₃, fun kernel => ?_⟩
  · rw [hleaf]
    simp only [calculatePagePhysicalEntryAddress, ha, hb, hc, hd, walkFlags_eq,
      pteFrame_of_link link₁, pteFrame_of_link link₂, pteFrame_of_link link₃]
  · have upper : kernelHalf a := of_decide_eq_true (half.trans kernel)
    have off (t : Nat) : t ∉ (∅ : Set Nat) := Set.notMem_empty t
    have root₁ := (ev₂.trans ev₃).link_eq (ev₁.kinds _ _ hm.root) (off _) upper link₁
    have root₂ := ev₃.link_eq (ev₂.kinds _ _ kind₁) (off _) kernel link₂
    rw [hpath]
    refine RadixTree.tableAt_concat_eq_some (p := [a, b]).mpr ⟨t₂, ?_, link₃⟩
    exact RadixTree.tableAt_concat_eq_some (p := [a]).mpr ⟨t₁, by
      exact RadixTree.tableAt_concat_eq_some (p := []).mpr ⟨_, rfl, root₁⟩, root₂⟩

/-- A path in the half of the kernel stays with its links. -/
theorem Sound.tableAt_of_links (hm : Sound guard θ m) {r : Nat} (hr : θ r = some .pml4)
    (kernel : halfOf v = true) (hpt : m.tableAt r (pathOf v) = some pt)
    (links : ∀ t k, θ t = some k → ∀ i, k.KernelLink i → link (m.tables t i) ≠ none →
      m'.tables t i = m.tables t i) :
    m'.tableAt r (pathOf v) = some pt ∧ θ pt = some (.pt true) := by
  obtain ⟨a, b, c, -, hpath, -, ha, -, -, -⟩ := walk_indices v
  have upper : kernelHalf a := by
    simpa only [halfOf, kernelHalf, ← ha, extractPageEntries, index_toNat, decide_eq_true_eq]
      using kernel
  have kept {t n : Nat} {k : TableKind} {i : Fin 512} (ht : θ t = some k) (kernel : k.KernelLink i)
      (present : link (m.tables t i) = some n) : link (m'.tables t i) = some n := by
    rw [links t k ht i kernel (by rw [present]; exact Option.some_ne_none n), present]
  rw [hpath] at hpt ⊢
  obtain ⟨t₂, h₂, link₃⟩ := RadixTree.tableAt_concat_eq_some (p := [a, b]).mp hpt
  obtain ⟨t₁, h₁, link₂⟩ := RadixTree.tableAt_concat_eq_some (p := [a]).mp h₂
  obtain ⟨t₀, h₀, link₁⟩ := RadixTree.tableAt_concat_eq_some (p := []).mp h₁
  obtain rfl := Option.some.inj h₀
  have kind₁ : θ t₁ = some (.pdpt true) := hm.typed.link hr
    (congrArg (fun b => some (TableKind.pdpt b)) (decide_eq_true upper)) link₁
  have kind₂ : θ t₂ = some (.pd true) := hm.typed.link kind₁ rfl link₂
  refine ⟨RadixTree.tableAt_concat_eq_some (p := [a, b]).mpr ⟨t₂, ?_, kept kind₂ rfl link₃⟩,
    hm.typed.link kind₂ rfl link₃⟩
  refine RadixTree.tableAt_concat_eq_some (p := [a]).mpr ⟨t₁, ?_, kept kind₁ rfl link₂⟩
  exact RadixTree.tableAt_concat_eq_some (p := []).mpr ⟨r, rfl, kept hr upper link₁⟩

theorem Evolves.tableAt (h : Evolves guard ∅ θ m θ' m') (hm : Sound guard θ m) {r : Nat}
    (hr : θ r = some .pml4) (kernel : halfOf v = true) (hpt : m.tableAt r (pathOf v) = some pt) :
    m'.tableAt r (pathOf v) = some pt :=
  (hm.tableAt_of_links hr kernel hpt fun t k ht => h.links t k ht (Set.notMem_empty t)).1

/-- With all tables present the walk only looks. -/
theorem Sound.walk_present (hm : Sound guard θ m)
    (hpt : m.tableAt (frameOf m.paging.pml4Physical) (pathOf v) = some pt) :
    calculatePagePhysicalEntryAddress m (extractPageEntries v) = (m, (pt, (leafIndex v).val)) := by
  obtain ⟨a, b, c, d, hpath, hleaf, ha, hb, hc, hd⟩ := walk_indices v
  rw [hpath] at hpt
  obtain ⟨t₂, h₂, link₃⟩ := RadixTree.tableAt_concat_eq_some (p := [a, b]).mp hpt
  obtain ⟨t₁, h₁, link₂⟩ := RadixTree.tableAt_concat_eq_some (p := [a]).mp h₂
  obtain ⟨t₀, h₀, link₁⟩ := RadixTree.tableAt_concat_eq_some (p := []).mp h₁
  obtain rfl := Option.some.inj h₀
  have kind₁ := hm.typed.link hm.root rfl link₁
  have kind₂ := hm.typed.link kind₁ rfl link₂
  rw [hleaf]
  simp only [calculatePagePhysicalEntryAddress, ha, hb, hc, hd,
    hm.ensureEntry_present hm.root rfl link₁, pteFrame_of_link link₁,
    hm.ensureEntry_present kind₁ rfl link₂, pteFrame_of_link link₂,
    hm.ensureEntry_present kind₂ rfl link₃, pteFrame_of_link link₃]

end ChudOS
