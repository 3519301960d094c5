import ChudOS.Library.FrameSharing
import ChudOS.LowLevel.PageRights

/-!
# User pages as places that show frames

The user pages of some address spaces form a `FrameSharing.Sharing`: what a page shows is the frame
of its entry, it may be written if its entry says so, and the frame table counts. `PagesSound` is
the invariant of copy-on-write; whatever the kernel allocates for itself keeps it.

## Main definitions

* `Memory.userFrame` — the frame a user page of one of the address spaces shows.
* `PagesSound` — the sharing is sound, and the frames shown are in use and no page tables.
* `SamePages` — the pages show the frames they showed before, with the same contents.
-/

namespace ChudOS

open Memory

variable {m m' m'' : Memory} {roots : Set Nat} {root pt f n : Nat} {v e : U64}
  {x : Nat × List (Fin 512) × Fin 512}

namespace Memory

open Classical in
/-- The frame that the page `x.2` of the address space `x.1` shows, if it is a user page and mapped. -/
noncomputable def userFrame (m : Memory) (roots : Set Nat) (x : Nat × List (Fin 512) × Fin 512) :
    Option Nat :=
  if x.1 ∈ roots ∧ UserPath x.2.1 then (m.wordAt x.1 x.2.1 x.2.2).bind link else none

/-- The user page may be written. -/
def userWritable (m : Memory) (roots : Set Nat) (x : Nat × List (Fin 512) × Fin 512) : Prop :=
  (x.1 ∈ roots ∧ UserPath x.2.1) ∧ Writable (m.wordAt x.1 x.2.1 x.2.2)

noncomputable def sharing (m : Memory) (roots : Set Nat) :
    FrameSharing.Sharing (Nat × List (Fin 512) × Fin 512) Nat where
  frame := m.userFrame roots
  writable := m.userWritable roots
  count f := (m.physFrames f).refcount.toNat

/-- What is read on the user pages. -/
noncomputable def userPages (m : Memory) (roots : Set Nat) :
    Nat × List (Fin 512) × Fin 512 → Option (Fin 512 → U64) :=
  (m.sharing roots).view m.tables

end Memory

/-- The invariant of copy-on-write. -/
structure PagesSound (m : Memory) (roots : Set Nat) : Prop where
  forest : Forest m roots
  sound : (m.sharing roots).Sound
  data : ∀ x f, m.userFrame roots x = some f → m.marked f = true ∧ ¬IsTable m roots f

/-- The user pages of the address spaces show the same frames in `m'` as in `m`, and the frames have
the same contents. -/
structure SamePages (roots : Set Nat) (m m' : Memory) : Prop where
  frame : ∀ x, m'.userFrame roots x = m.userFrame roots x
  contents : ∀ x f, m.userFrame roots x = some f → m'.tables f = m.tables f

namespace Memory

theorem userFrame_of_place (h : x.1 ∈ roots ∧ UserPath x.2.1) :
    m.userFrame roots x = (m.wordAt x.1 x.2.1 x.2.2).bind link := if_pos h

theorem userFrame_of_not (h : ¬(x.1 ∈ roots ∧ UserPath x.2.1)) : m.userFrame roots x = none :=
  if_neg h

theorem userFrame_place (h : m.userFrame roots x = some f) : x.1 ∈ roots ∧ UserPath x.2.1 := by
  by_contra no
  rw [userFrame_of_not no] at h
  cases h

end Memory

theorem link_isSome_of_present (h : e.getLsbD 0 = true) : link e = some (pteFrame e) := by
  rw [link_eq_some]
  refine ⟨fun absent => ?_, rfl⟩
  rw [absent_iff.mp absent] at h
  cases h

namespace SamePages

theorem trans (h : SamePages roots m m') (g : SamePages roots m' m'') : SamePages roots m m'' where
  frame x := (g.frame x).trans (h.frame x)
  contents x f hx := (g.contents x f ((h.frame x).trans hx)).trans (h.contents x f hx)

theorem userPages (h : SamePages roots m m') : m'.userPages roots = m.userPages roots :=
  FrameSharing.Sharing.view_congr h.frame h.contents

end SamePages

/-! ## What is done outside the user pages -/

/-- Entries of user pages may have appeared, but none that is present. -/
theorem userFrame_of_words (words : ∀ r ∈ roots, ∀ p, UserPath p → ∀ j,
    m'.wordAt r p j = m.wordAt r p j ∨ m.wordAt r p j = none ∧ m'.wordAt r p j = some 0) :
    m'.userFrame roots x = m.userFrame roots x ∧
      (m'.userWritable roots x → m.userWritable roots x) := by
  by_cases place : x.1 ∈ roots ∧ UserPath x.2.1
  · rw [userFrame_of_place place, userFrame_of_place place, userWritable, userWritable]
    obtain same | ⟨absent, zero⟩ := words x.1 place.1 x.2.1 place.2 x.2.2
    · rw [same]
      exact ⟨rfl, id⟩
    · rw [absent, zero]
      exact ⟨rfl, fun ⟨_, may⟩ => absurd may.present (by simp)⟩
  · rw [userFrame_of_not place, userFrame_of_not place]
    exact ⟨rfl, fun ⟨at_x, _⟩ => absurd at_x place⟩

/-- Allocations for the kernel. -/
theorem PagesSound.keepsUser (h : PagesSound m roots) (keeps : KeepsUser roots m m') :
    PagesSound m' roots ∧ SamePages roots m m' := by
  have words (x : Nat × List (Fin 512) × Fin 512) := userFrame_of_words (x := x) keeps.word
  refine ⟨⟨keeps.forest, ?_, fun x f hx => ?_⟩, fun x => (words x).1, fun x f hx => ?_⟩
  · apply h.sound.restrict (fun x => (words x).1) (fun x may => .inl ((words x).2 may))
    intro f
    exact (congrArg BitVec.toNat (keeps.refcount f)).ge
  · rw [(words x).1] at hx
    obtain ⟨used, noTable⟩ := h.data x f hx
    refine ⟨keeps.marked used, fun table => ?_⟩
    obtain old | free := keeps.fresh f table
    · exact noTable old
    · exact free.not_marked used
  · obtain ⟨used, noTable⟩ := h.data x f hx
    exact funext (keeps.data f used noTable)

/-- Changes outside the page tables. -/
theorem userFrame_of_tables (tables : ∀ f, IsTable m roots f → m'.tables f = m.tables f) :
    m'.userFrame roots = m.userFrame roots ∧ m'.userWritable roots = m.userWritable roots := by
  have word {r : Nat} (hr : r ∈ roots) {p : List (Fin 512)} (hp : UserPath p) (j : Fin 512) :
      m'.wordAt r p j = m.wordAt r p j := wordAt_of_tables tables hr hp.1.le j
  constructor
  · funext x
    by_cases place : x.1 ∈ roots ∧ UserPath x.2.1
    · rw [userFrame_of_place place, userFrame_of_place place, word place.1 place.2]
    · rw [userFrame_of_not place, userFrame_of_not place]
  · funext x
    apply propext
    apply and_congr_right
    intro place
    rw [word place.1 place.2]

/-- Changes that leave the page tables and the frame table as they are. -/
theorem PagesSound.of_tables (h : PagesSound m roots)
    (tables : ∀ f, IsTable m roots f → m'.tables f = m.tables f)
    (total : m'.totalMem = m.totalMem) (frames : m'.physFrames = m.physFrames) :
    PagesSound m' roots ∧ m'.sharing roots = m.sharing roots := by
  obtain ⟨frame, writable⟩ := userFrame_of_tables tables
  have same : m'.sharing roots = m.sharing roots := by
    rw [Memory.sharing, Memory.sharing, frame, writable, frames]
  refine ⟨⟨h.forest.of_tables tables total fun t ht => ?_, same ▸ h.sound, fun x f hx => ?_⟩, same⟩
  · rw [Memory.marked, frames]
    exact h.forest.marked t ht
  · rw [frame] at hx
    rw [Memory.marked, frames, isTable_of_tables tables]
    exact h.data x f hx

/-! ## A new entry -/

section Entry

variable (hm : Forest m roots) (hroot : root ∈ roots)
  (hpt : m.tableAt root (pathOf v) = some pt) (user : UserPath (pathOf v))

include hm hroot hpt user

/-- The entry of one user page is written. -/
theorem setEntry_userWord (hr : x.1 ∈ roots ∧ UserPath x.2.1) :
    (m.setEntry (pt, (leafIndex v).val) e).wordAt x.1 x.2.1 x.2.2 =
      if x = (root, pathOf v, leafIndex v) then some e else m.wordAt x.1 x.2.1 x.2.2 := by
  obtain ⟨r, p, j⟩ := x
  split_ifs with here
  · cases here
    exact setEntry_word hm hroot (pathOf_length v) hpt
  · by_cases own : r = root
    · subst own
      apply setEntry_word_of_ne hm hroot (pathOf_length v) hpt hr.1 hr.2.1
      rintro ⟨rfl, rfl⟩
      exact here rfl
    · exact setEntry_word_of_root hm hroot (pathOf_length v) hpt hr.1 own user.2 hr.2.1 j

theorem setEntry_userFrame : (m.setEntry (pt, (leafIndex v).val) e).userFrame roots x =
    if x = (root, pathOf v, leafIndex v) then link e else m.userFrame roots x := by
  by_cases place : x.1 ∈ roots ∧ UserPath x.2.1
  · rw [userFrame_of_place place, userFrame_of_place place,
      setEntry_userWord hm hroot hpt user place]
    split_ifs
    · rfl
    · rfl
  · rw [userFrame_of_not place, userFrame_of_not place, if_neg]
    rintro rfl
    exact place ⟨hroot, user⟩

theorem setEntry_userWritable : (m.setEntry (pt, (leafIndex v).val) e).userWritable roots x →
    x = (root, pathOf v, leafIndex v) ∧ e.getLsbD 0 = true ∧ e.getLsbD 1 = true ∨
      x ≠ (root, pathOf v, leafIndex v) ∧ m.userWritable roots x := by
  rintro ⟨place, may⟩
  rw [setEntry_userWord hm hroot hpt user place] at may
  split_ifs at may with here
  · exact .inl ⟨here, writable_some.mp may⟩
  · exact .inr ⟨here, place, may⟩

omit hm user in
/-- Frames that are no page tables keep their contents. -/
theorem setEntry_contents (data : ¬IsTable m roots f) :
    (m.setEntry (pt, (leafIndex v).val) e).tables f = m.tables f := by
  funext j
  rw [tables_setEntry, RadixTree.write_of_ne_table]
  rintro rfl
  exact data ⟨root, hroot, pathOf v, (pathOf_length v).le, hpt⟩

end Entry

end ChudOS
