import Mathlib.Data.Set.Card

/-!
# Places that show shared frames

Several places may show the same frame. A frame is safe to write through a place that shows it
alone; reference counts bound the number of places at a frame from above, except that the only place
at a frame need not be counted.

## Main definitions

* `Sharing` — the frame each place shows, the places that may be written, and the counts.
* `Sound` — only places that are alone may be written, and the counts bound the places.
* `view` — the contents each place shows.
-/

namespace FrameSharing

variable {ι φ γ : Type*}

structure Sharing (ι φ : Type*) where
  frame : ι → Option φ
  writable : ι → Prop
  count : φ → ℕ

namespace Sharing

variable (s s' : Sharing ι φ)

def sharers (f : φ) : Set ι := {x | s.frame x = some f}

structure Sound : Prop where
  alone : ∀ x y f, s.writable x → s.frame x = some f → s.frame y = some f → y = x
  counted : ∀ f, (s.sharers f).encard ≤ (max 1 (s.count f) : ℕ)

/-- What the places show when the frames hold `mem`. -/
def view (mem : φ → γ) (x : ι) : Option γ := (s.frame x).map mem

variable {s s'} {x y z : ι} {f g n : φ} {mem mem' : φ → γ}

@[simp] theorem mem_sharers : x ∈ s.sharers f ↔ s.frame x = some f := Iff.rfl

/-! ## What keeps the sharing sound -/

/-- A frame that is counted is counted for every place. -/
theorem Sound.le_count (h : s.Sound) (counted : s.count f ≠ 0) :
    (s.sharers f).encard ≤ s.count f := by
  have positive : max 1 (s.count f) = s.count f := max_eq_right (Nat.one_le_iff_ne_zero.mpr counted)
  have bound := h.counted f
  rwa [positive] at bound

/-- At a frame that has lost places and no count the bound stays. -/
theorem Sound.counted_of_subset (h : s.Sound) (fewer : s'.sharers f ⊆ s.sharers f)
    (count : s.count f ≤ s'.count f) : (s'.sharers f).encard ≤ (max 1 (s'.count f) : ℕ) :=
  calc (s'.sharers f).encard ≤ (s.sharers f).encard := Set.encard_le_encard fewer
    _ ≤ (max 1 (s.count f) : ℕ) := h.counted f
    _ ≤ (max 1 (s'.count f) : ℕ) := Nat.cast_le.mpr (max_le_max_left 1 count)

/-- At a frame whose count is at most one there is one place. -/
theorem Sound.eq_of_count (h : s.Sound) (count : s.count f ≤ 1) (hx : s.frame x = some f)
    (hy : s.frame y = some f) : y = x := by
  have one : max 1 (s.count f) = 1 := max_eq_left count
  have few := h.counted f
  rw [one] at few
  exact Set.encard_le_one_iff.mp few y x hy hx

/-- A place that is alone at its frame may become writable, and counts may grow. -/
theorem Sound.restrict (h : s.Sound) (frame : ∀ z, s'.frame z = s.frame z)
    (writable : ∀ z, s'.writable z → s.writable z ∨ ∃ f, s.frame z = some f ∧ s.count f ≤ 1)
    (counts : ∀ f, s.count f ≤ s'.count f) : s'.Sound where
  alone x y g hx hxg hyg := by
    rw [frame] at hxg hyg
    obtain old | ⟨f, hxf, few⟩ := writable x hx
    · exact h.alone x y g old hxg hyg
    · obtain rfl : f = g := Option.some.inj (hxf.symm.trans hxg)
      exact h.eq_of_count few hxg hyg
  counted g := by
    apply h.counted_of_subset _ (counts g)
    intro z hz
    rwa [mem_sharers, frame] at hz

variable [DecidableEq ι]

/-- A place `y` comes to show the frame of `x`. Neither can be written afterwards, and the frame is
counted once more; it must have been counted before. -/
theorem Sound.share (h : s.Sound) (hx : s.frame x = some f) (counted : s.count f ≠ 0)
    (frame : ∀ z, s'.frame z = if z = y then some f else s.frame z)
    (writable : ∀ z, s'.writable z → z ≠ x ∧ z ≠ y ∧ s.writable z)
    (count : s.count f + 1 ≤ s'.count f) (counts : ∀ g, s.count g ≤ s'.count g) : s'.Sound where
  alone z w g hz hzg hwg := by
    obtain ⟨notSource, notNew, old⟩ := writable z hz
    rw [frame, if_neg notNew] at hzg
    rw [frame] at hwg
    split_ifs at hwg with new
    · obtain rfl : f = g := Option.some.inj hwg
      exact absurd (h.alone z x f old hzg hx).symm notSource
    · exact h.alone z w g old hzg hwg
  counted g := by
    have place {z : ι} (hz : z ∈ s'.sharers g) : z = y ∧ g = f ∨ z ∈ s.sharers g := by
      rw [mem_sharers, frame] at hz
      split_ifs at hz with new
      · exact .inl ⟨new, (Option.some.inj hz).symm⟩
      · exact .inr hz
    by_cases same : g = f
    · subst same
      have grown : s'.sharers g ⊆ insert y (s.sharers g) := fun z hz => (place hz).imp_left And.left
      calc (s'.sharers g).encard ≤ (insert y (s.sharers g)).encard := Set.encard_le_encard grown
        _ ≤ (s.sharers g).encard + 1 := Set.encard_insert_le _ _
        _ ≤ s.count g + 1 := by gcongr; exact h.le_count counted
        _ ≤ (max 1 (s'.count g) : ℕ) := by exact_mod_cast count.trans (le_max_right 1 _)
    · exact h.counted_of_subset (fun z hz => (place hz).resolve_left fun new => same new.2) (counts g)

/-- A place leaves a frame that is counted more than once for a frame nobody shows. -/
theorem Sound.leave (h : s.Sound) (hx : s.frame x = some f) (shared : 1 < s.count f)
    (fresh : ∀ z, s.frame z ≠ some n)
    (frame : ∀ z, s'.frame z = if z = x then some n else s.frame z)
    (writable : ∀ z, s'.writable z → z ≠ x → s.writable z)
    (count : s.count f ≤ s'.count f + 1) (counts : ∀ g, g ≠ f → s.count g ≤ s'.count g) :
    s'.Sound where
  alone z w g hz hzg hwg := by
    rw [frame] at hzg hwg
    split_ifs at hzg hwg with atZ atW atW
    · exact atW.trans atZ.symm
    · obtain rfl : n = g := Option.some.inj hzg
      exact absurd hwg (fresh w)
    · obtain rfl : n = g := Option.some.inj hwg
      exact absurd hzg (fresh z)
    · exact h.alone z w g (writable z hz atZ) hzg hwg
  counted g := by
    have place {z : ι} (hz : z ∈ s'.sharers g) : z = x ∧ g = n ∨ z ≠ x ∧ z ∈ s.sharers g := by
      rw [mem_sharers, frame] at hz
      split_ifs at hz with new
      · exact .inl ⟨new, (Option.some.inj hz).symm⟩
      · exact .inr ⟨new, hz⟩
    by_cases new : g = n
    · have only : s'.sharers g ⊆ {x} := by
        intro z hz
        obtain ⟨here, -⟩ | ⟨-, old⟩ := place hz
        · exact here
        · exact absurd (new ▸ old) (fresh z)
      calc (s'.sharers g).encard ≤ ({x} : Set ι).encard := Set.encard_le_encard only
        _ = (1 : ℕ) := Set.encard_singleton x
        _ ≤ (max 1 (s'.count g) : ℕ) := Nat.cast_le.mpr (le_max_left 1 _)
    have old {z : ι} (hz : z ∈ s'.sharers g) : z ≠ x ∧ z ∈ s.sharers g :=
      (place hz).resolve_left fun moved => new moved.2
    by_cases same : g = f
    · subst same
      have left : insert x (s'.sharers g) ⊆ s.sharers g :=
        Set.insert_subset hx fun z hz => (old hz).2
      have less : (s'.sharers g).encard + 1 ≤ (s'.count g : ℕ∞) + 1 :=
        calc (s'.sharers g).encard + 1 = (insert x (s'.sharers g)).encard :=
              (Set.encard_insert_of_notMem fun hxg => (old hxg).1 rfl).symm
          _ ≤ (s.sharers g).encard := Set.encard_le_encard left
          _ ≤ s.count g := h.le_count (by omega)
          _ ≤ (s'.count g : ℕ∞) + 1 := by exact_mod_cast count
      have bound := (ENat.add_le_add_iff_right ENat.one_ne_top).mp less
      exact bound.trans (Nat.cast_le.mpr (le_max_right 1 _))
    · exact h.counted_of_subset (fun z hz => (old hz).2) (counts g same)

/-! ## What the places show -/

omit [DecidableEq ι] in
theorem view_congr (frame : ∀ z, s'.frame z = s.frame z)
    (contents : ∀ z f, s.frame z = some f → mem' f = mem f) : s'.view mem' = s.view mem := by
  funext z
  rw [view, view, frame]
  cases shown : s.frame z with
  | none => rfl
  | some f => rw [Option.map_some, Option.map_some, contents z f shown]

/-- A write through a place that may be written is seen there and nowhere else. -/
theorem Sound.view_write [DecidableEq φ] (h : s.Sound) (hx : s.frame x = some f)
    (may : s.writable x) (c : γ) :
    s.view (Function.update mem f c) = Function.update (s.view mem) x (some c) := by
  funext z
  by_cases here : z = x
  · subst here
    rw [Function.update_self, view, hx, Option.map_some, Function.update_self]
  · rw [Function.update_of_ne here, view, view]
    cases shown : s.frame z with
    | none => rfl
    | some g =>
      have other : g ≠ f := by
        rintro rfl
        exact here (h.alone x z g may hx shown)
      rw [Option.map_some, Option.map_some, Function.update_of_ne other]

/-- Moving to a copy is not seen. -/
theorem view_leave (hx : s.frame x = some f)
    (frame : ∀ z, s'.frame z = if z = x then some n else s.frame z) (copy : mem' n = mem f)
    (contents : ∀ z g, s.frame z = some g → mem' g = mem g) : s'.view mem' = s.view mem := by
  funext z
  rw [view, view, frame]
  split_ifs with here
  · rw [here, hx, Option.map_some, Option.map_some, copy]
  · cases shown : s.frame z with
    | none => rfl
    | some g => rw [Option.map_some, Option.map_some, contents z g shown]

end Sharing

end FrameSharing
