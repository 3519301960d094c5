import ChudOS.LowLevel.Malloc

/-!
# What the entries of user pages permit

Rights are read off the entry of a page alone. `Narrows` compares the rights of one page before and
after a change, `RightsNarrow` those of all user pages of some address spaces.

## Main definitions

* `Present`, `Writable`, `Executable` — what an entry that was found, if any, permits.
* `RightsNarrow` — in the address spaces given no user page has gained a right.
* `Inherits` — the pages of a child lie where its parent has pages, and none is writable.
-/

namespace ChudOS

open Memory

/-! ## Rights of one entry -/

/-- An entry was found, and the page is mapped. -/
def Present (o : Option U64) : Prop := ∃ e ∈ o, e.getLsbD 0 = true

def Writable (o : Option U64) : Prop := ∃ e ∈ o, e.getLsbD 0 = true ∧ e.getLsbD 1 = true

def Executable (o : Option U64) : Prop := ∃ e ∈ o, e.getLsbD 0 = true ∧ e.getLsbD 63 = false

/-- From `o` to `o'` the page has gained no right, and it has lost none but that to be written. -/
structure Narrows (o o' : Option U64) : Prop where
  present : Present o' ↔ Present o
  writable : Writable o' → Writable o
  executable : Executable o' ↔ Executable o

variable {o o' o'' : Option U64} {e e' : U64}

@[simp] theorem present_some : Present (some e) ↔ e.getLsbD 0 = true := by simp [Present]

@[simp] theorem writable_some :
    Writable (some e) ↔ e.getLsbD 0 = true ∧ e.getLsbD 1 = true := by simp [Writable]

@[simp] theorem executable_some :
    Executable (some e) ↔ e.getLsbD 0 = true ∧ e.getLsbD 63 = false := by simp [Executable]

@[simp] theorem present_none : ¬Present none := by simp [Present]

theorem Writable.present (h : Writable o) : Present o :=
  let ⟨e, he, present, _⟩ := h
  ⟨e, he, present⟩

theorem Executable.present (h : Executable o) : Present o :=
  let ⟨e, he, present, _⟩ := h
  ⟨e, he, present⟩

namespace Narrows

theorem refl : Narrows o o := ⟨.rfl, id, .rfl⟩

theorem trans (h : Narrows o o') (g : Narrows o' o'') : Narrows o o'' :=
  ⟨g.present.trans h.present, h.writable ∘ g.writable, g.executable.trans h.executable⟩

/-- A page that was not there before and is not there afterwards. -/
theorem of_absent (h : ¬Present o) (h' : ¬Present o') : Narrows o o' where
  present := iff_of_false h' h
  writable hw := absurd hw.present h'
  executable := iff_of_false (h' ∘ Executable.present) (h ∘ Executable.present)

theorem of_bits (present : e'.getLsbD 0 = e.getLsbD 0)
    (writable : e'.getLsbD 1 = true → e.getLsbD 1 = true)
    (executable : e'.getLsbD 63 = e.getLsbD 63) : Narrows (some e) (some e') := by
  constructor
  · rw [present_some, present_some, present]
  · rw [writable_some, writable_some, present]
    exact And.imp_right writable
  · rw [executable_some, executable_some, present, executable]

/-- A walk may add the page table of a page, empty. -/
theorem of_walk (h : o' = o ∨ o = none ∧ o' = some 0) : Narrows o o' := by
  rcases h with rfl | ⟨rfl, rfl⟩
  · exact refl
  · exact of_absent present_none (by simp)

end Narrows

/-! ## Rights in address spaces -/

/-- No user page of the address spaces `roots` has gained a right. -/
def RightsNarrow (roots : Set Nat) (m m' : Memory) : Prop :=
  ∀ r ∈ roots, ∀ p, UserPath p → ∀ j, Narrows (m.wordAt r p j) (m'.wordAt r p j)

variable {m m' m'' : Memory} {roots : Set Nat} {root n : Nat} {v : U64}

namespace RightsNarrow

theorem refl : RightsNarrow roots m m := fun _ _ _ _ _ => .refl

theorem trans (h : RightsNarrow roots m m') (g : RightsNarrow roots m' m'') :
    RightsNarrow roots m m'' :=
  fun r hr p hp j => (h r hr p hp j).trans (g r hr p hp j)

theorem mono {roots' : Set Nat} (h : RightsNarrow roots m m') (sub : roots' ⊆ roots) :
    RightsNarrow roots' m m' := fun r hr => h r (sub hr)

/-- Whatever leaves the page tables as they are. -/
theorem of_tables (same : ∀ f, IsTable m roots f → m'.tables f = m.tables f) :
    RightsNarrow roots m m' := by
  intro r hr p hp j
  rw [wordAt_of_tables same hr hp.1.le]
  exact .refl

theorem of_keepsUser (h : KeepsUser roots m m') : RightsNarrow roots m m' :=
  fun r hr p hp j => .of_walk (h.word r hr p hp j)

end RightsNarrow

/-- The walk to a page. -/
theorem walk_rights (hm : Forest m roots) (hroot : frameOf m.paging.pml4Physical ∈ roots)
    (enough : m.HasFree (n + 3)) (v : U64) :
    ∃ m₁ pt, calculatePagePhysicalEntryAddress m (extractPageEntries v) =
        (m₁, (pt, (leafIndex v).val)) ∧ KeepsUser roots m m₁ ∧ m₁.HasFree n ∧
      m₁.tableAt (frameOf m.paging.pml4Physical) (pathOf v) = some pt := by
  obtain ⟨m₁, pt, walk, ext, free, table⟩ := walk_spec hm hroot v
    (enough.mono (Nat.add_le_add_left (Memory.missing_le _ _ _) n))
  exact ⟨m₁, pt, walk, .of_extends hm hroot (pathOf_length v).le ext, free, table⟩

section SetEntry

variable {pt : Nat} (hm : Forest m roots) (hroot : root ∈ roots)
  (hpt : m.tableAt root (pathOf v) = some pt)

include hm hroot hpt

/-- A new entry matters to the address space it is in. -/
theorem setEntry_others (e : U64) :
    RightsNarrow (roots \ {root}) m (m.setEntry (pt, (leafIndex v).val) e) := by
  intro r hr p hp j
  apply Narrows.of_walk
  left
  by_cases user : UserPath (pathOf v)
  · exact setEntry_word_of_root hm hroot (pathOf_length v) hpt hr.1 hr.2 user.2 hp.1 j
  · apply setEntry_word_of_ne hm hroot (pathOf_length v) hpt hr.1 hp.1
    rintro ⟨rfl, -⟩
    exact user hp

/-- An entry that takes the place of one with at least its rights. -/
theorem setEntry_narrows (narrow : Narrows (some (m.tables pt (leafIndex v))) (some e)) :
    RightsNarrow roots m (m.setEntry (pt, (leafIndex v).val) e) := by
  intro r hr p hp j
  by_cases own : r = root
  · subst own
    by_cases page : p = pathOf v ∧ j = leafIndex v
    · obtain ⟨rfl, rfl⟩ := page
      rw [setEntry_word hm hroot (pathOf_length v) hpt, Memory.wordAt_eq, hpt, Option.map_some]
      exact narrow
    · rw [setEntry_word_of_ne hm hroot (pathOf_length v) hpt hr hp.1 page]
      exact .refl
  · exact setEntry_others hm hroot hpt e r ⟨hr, own⟩ p hp j

end SetEntry

/-- What `alloc_page` does to the user pages: those of other address spaces stay, and in its own at
most the page asked for gets a new entry. -/
theorem allocPage_rights {page : PageDetails} {a : U64} (hm : Forest m roots)
    (hroot : frameOf m.paging.pml4Physical ∈ roots) (enough : m.HasFree (n + 4))
    (h : allocPage m page = some (m', a)) :
    Forest m' roots ∧ m'.HasFree n ∧
      RightsNarrow (roots \ {frameOf m.paging.pml4Physical}) m m' ∧
      ∀ p, UserPath p → ∀ j,
        Narrows (m.wordAt (frameOf m.paging.pml4Physical) p j)
            (m'.wordAt (frameOf m.paging.pml4Physical) p j) ∨
          p = pathOf page.virtualAddress ∧ j = leafIndex page.virtualAddress ∧
            m'.wordAt (frameOf m.paging.pml4Physical) p j = some (pageEntry page) := by
  obtain ⟨inMemory, ⟨-, rfl, -⟩ | ⟨accepted, -, -⟩⟩ := allocPage_cases h
  · exact ⟨hm, enough.mono (by omega), .refl, fun p hp j => .inl .refl⟩
  obtain ⟨m₁, pt, result, ext, free, table⟩ := allocPage_spec hm hroot enough inMemory accepted
  rw [h] at result
  cases result
  have counted : RightsNarrow roots m (countReference m page) := by
    apply RightsNarrow.of_tables
    intro f _
    unfold Memory.tables
    rw [countReference_ram]
  have walked : RightsNarrow roots m m₁ := counted.trans <| .of_keepsUser <|
    .of_extends (countReference_forest hm) hroot (pathOf_length _).le ext
  refine ⟨setEntry_forest ext.forest hroot (pathOf_length _) table, free, ?_, ?_⟩
  · exact (walked.mono Set.sdiff_subset).trans (setEntry_others ext.forest hroot table _)
  · intro p hp j
    by_cases here : p = pathOf page.virtualAddress ∧ j = leafIndex page.virtualAddress
    · obtain ⟨rfl, rfl⟩ := here
      exact .inr ⟨rfl, rfl, setEntry_word ext.forest hroot (pathOf_length _) table⟩
    · left
      rw [setEntry_word_of_ne ext.forest hroot (pathOf_length _) table hroot hp.1 here]
      exact walked _ hroot p hp j

/-! ## Sharing -/

/-- The pages of the child's address space lie where the parent has pages that can be executed, and
can be executed but not written. -/
def Inherits (m : Memory) (parent child : Nat) : Prop :=
  ∀ p, UserPath p → ∀ j, Present (m.wordAt child p j) →
    ¬Writable (m.wordAt child p j) ∧ Executable (m.wordAt child p j) ∧
      Executable (m.wordAt parent p j)

/-- An address space without user pages. -/
theorem Inherits.of_empty {parent child : Nat} (h : ∀ p, UserPath p → ∀ j, m.wordAt child p j = none) :
    Inherits m parent child := by
  intro p hp j present
  rw [h p hp j] at present
  exact absurd present present_none

theorem Inherits.narrow {parent child : Nat} (h : Inherits m parent child)
    (narrow : RightsNarrow roots m m') (hp : parent ∈ roots) (hc : child ∈ roots) :
    Inherits m' parent child := by
  intro p hup j present
  have own := narrow child hc p hup j
  obtain ⟨locked, executable, source⟩ := h p hup j (own.present.mp present)
  exact ⟨locked ∘ own.writable, own.executable.mpr executable,
    (narrow parent hp p hup j).executable.mpr source⟩

end ChudOS
