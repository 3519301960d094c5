import ChudOS.LowLevel.Malloc

/-!
# Marks in the frame table

Frames are marked when they are handed out. A frame that belongs to the kernel is never taken away
from it: `mem_ClearBit` clears the bit "used" alone. Frame 0 is left out, which also stands for
"no frame is free".
-/

namespace ChudOS

open Memory

variable {m m' m'' : Memory} {f : Nat} {page : PageDetails} {t t' : TaskMemoryDefinition} {a : U64}

/-- The frame carries the kernel's bit. -/
def Memory.owned (m : Memory) (f : Nat) : Bool := (m.physFrames f).flags &&& 0b100 != 0

theorem Memory.marked_of_owned (h : m.owned f = true) : m.marked f = true := by
  unfold Memory.marked Memory.owned at *
  generalize (m.physFrames f).flags = x at h
  revert x
  decide

/-- The kernel keeps its frames. -/
structure KeepsOwned (m m' : Memory) : Prop where
  totalMem : m'.totalMem = m.totalMem
  owned : ∀ f ≠ 0, m.owned f = true → m'.owned f = true

/-- No frame becomes free. -/
structure KeepsMarks (m m' : Memory) : Prop extends KeepsOwned m m' where
  marked : ∀ f ≠ 0, m.marked f = true → m'.marked f = true

theorem KeepsOwned.trans (h : KeepsOwned m m') (g : KeepsOwned m' m'') : KeepsOwned m m'' :=
  ⟨g.totalMem.trans h.totalMem, fun f hf hm => g.owned f hf (h.owned f hf hm)⟩

theorem KeepsOwned.of_frames (total : m'.totalMem = m.totalMem)
    (frames : m'.physFrames = m.physFrames) : KeepsOwned m m' :=
  ⟨total, fun f _ h => by rwa [Memory.owned, frames]⟩

/-- A change of the frame `f`, to flags at least as strong. -/
theorem KeepsOwned.setFrame {x : PhysicalFrame}
    (h : (m.physFrames f).flags &&& 0b100 ≠ 0 → x.flags &&& 0b100 ≠ 0) :
    KeepsOwned m (m.setFrame f x) := by
  refine ⟨rfl, fun g _ hg => ?_⟩
  unfold Memory.owned at hg ⊢
  by_cases hgf : g = f
  · subst hgf
    simp only [Memory.setFrame, Function.update_self, bne_iff_ne] at hg ⊢
    exact h hg
  · simpa only [Memory.setFrame, Function.update_of_ne hgf] using hg

namespace KeepsMarks

theorem refl : KeepsMarks m m := ⟨⟨rfl, fun _ _ h => h⟩, fun _ _ h => h⟩

theorem trans (h : KeepsMarks m m') (g : KeepsMarks m' m'') : KeepsMarks m m'' :=
  ⟨h.toKeepsOwned.trans g.toKeepsOwned, fun f hf hm => g.marked f hf (h.marked f hf hm)⟩

theorem of_frames (total : m'.totalMem = m.totalMem) (frames : m'.physFrames = m.physFrames) :
    KeepsMarks m m' := by
  refine ⟨.of_frames total frames, fun f _ h => ?_⟩
  rwa [Memory.marked, frames]

theorem setFrame {x : PhysicalFrame}
    (ho : (m.physFrames f).flags &&& 0b100 ≠ 0 → x.flags &&& 0b100 ≠ 0)
    (hm : (m.physFrames f).flags &&& 0b111 ≠ 0 → x.flags &&& 0b111 ≠ 0) :
    KeepsMarks m (m.setFrame f x) := by
  refine ⟨.setFrame ho, fun g _ hg => ?_⟩
  unfold Memory.marked at hg ⊢
  by_cases hgf : g = f
  · subst hgf
    simp only [Memory.setFrame, Function.update_self, bne_iff_ne] at hg ⊢
    exact hm hg
  · simpa only [Memory.setFrame, Function.update_of_ne hgf] using hg

theorem setEntry (s : Slot) (x : U64) : KeepsMarks m (m.setEntry s x) := .of_frames rfl rfl

theorem recount (f : Nat) (n : U32) :
    KeepsMarks m (m.setFrame f { m.physFrames f with refcount := n }) := .setFrame id id

/-- The mark of a page table, or of a page of the kernel. -/
theorem five (f : Nat) : KeepsMarks m (m.setFlags f 0b101) :=
  setFrame (fun _ => (by decide : (0b101 : U8) &&& 0b100 ≠ 0))
    fun _ => (by decide : (0b101 : U8) &&& 0b111 ≠ 0)

/-- A frame that is not marked, or frame 0, may change in any way. -/
theorem off (total : m'.totalMem = m.totalMem) (free : f ≠ 0 → m.marked f = false)
    (same : ∀ g, g ≠ f → m'.physFrames g = m.physFrames g) : KeepsMarks m m' := by
  have other {g : Nat} (hg : g ≠ 0) (hm : m.marked g = true) : m'.physFrames g = m.physFrames g := by
    refine same g ?_
    rintro rfl
    rw [free hg] at hm
    cases hm
  refine ⟨⟨total, fun g hg ho => ?_⟩, fun g hg hm => ?_⟩
  · rwa [Memory.owned, other hg (marked_of_owned ho)]
  · rwa [Memory.marked, other hg hm]

end KeepsMarks

/-! ## The scan -/

/-- The scan returns frame 0 or a frame without a mark. -/
theorem findNextFreePhysical_unmarked (h : frameOf (findNextFreePhysical m) ≠ 0) :
    m.marked (frameOf (findNextFreePhysical m)) = false := by
  unfold findNextFreePhysical at h ⊢
  split at h
  next f found =>
    have inRange := List.mem_range.mp (List.mem_of_find?_eq_some found)
    have bit := List.find?_some found
    have bound : f < 2 ^ 52 := by
      have := m.totalMem.isLt
      unfold frameCount at inRange
      omega
    rw [frameOf_physOf bound]
    rw [memGetBit_physOf bound] at bit
    simpa using bit
  next => exact absurd rfl h

/-! ## What marks and what does not -/

theorem ensureEntry_marks (m : Memory) (s : Slot) (flags : U8) :
    KeepsMarks m (ensureEntry m s flags) := by
  unfold ensureEntry
  dsimp only
  split
  · exact (KeepsMarks.five _).trans (.of_frames rfl rfl)
  · exact .refl

theorem walk_marks (m : Memory) (e : PageEntries) :
    KeepsMarks m (calculatePagePhysicalEntryAddress m e).1 :=
  ((ensureEntry_marks _ _ _).trans (ensureEntry_marks _ _ _)).trans (ensureEntry_marks _ _ _)

/-- A user page never takes a frame of the kernel. -/
theorem countReference_marks (accepted : allocRefused m page = false) :
    KeepsMarks m (countReference m page) := by
  refine ⟨⟨(countReference_layout m page).2.1, fun g _ hg => ?_⟩,
    fun g _ hg => countReference_marked hg⟩
  by_cases hgf : page.virtualAddress < virtualMemoryBarrier ∧ g = frameOf page.physicalAddress
  · obtain ⟨user, rfl⟩ := hgf
    simp only [allocRefused, user, decide_true, Bool.and_true, Bool.or_eq_false_iff,
      beq_eq_false_iff_ne] at accepted
    have kernel := accepted.2
    unfold Memory.owned at hg
    have bit : ∀ x : U8, (x &&& 0b100 != 0) = true → x &&& 0b100 = 0b100 := by decide
    exact absurd (bit _ hg) kernel
  · rw [Memory.owned, countReference_physFrames, if_neg hgf]
    exact hg

theorem allocPage_marks (h : allocPage m page = some (m', a)) : KeepsMarks m m' := by
  obtain ⟨-, ⟨-, rfl, -⟩ | ⟨accepted, -, rfl⟩⟩ := allocPage_cases h
  · exact .refl
  · exact ((countReference_marks accepted).trans (walk_marks _ _)).trans (.of_frames rfl rfl)

theorem mallocSpecific_marks {b : U64} {p : PagePermissions}
    (h : mallocSpecific m t a p = some (m', t', b)) : KeepsMarks m m' := by
  unfold mallocSpecific at h
  simp only [Option.bind_eq_bind, Option.bind_eq_some_iff, Prod.exists] at h
  obtain ⟨m₁, c, hc, h⟩ := h
  split at h <;> (cases h; exact allocPage_marks hc)

/-- `alloc_page` refuses a frame of the kernel to a user program. -/
theorem allocRefused_of_owned (user : page.virtualAddress < virtualMemoryBarrier)
    (kernel : (m.physFrames (frameOf page.physicalAddress)).flags = 0b101) :
    allocRefused m page = true := by
  simp only [allocRefused, kernel, user, decide_true]
  decide

/-- `malloc` fails only when `alloc_page` refuses. -/
theorem malloc_refused (page : PageDetails)
    (h : allocPage (m.setFlags (frameOf page.physicalAddress) 0b101) page = some (m', 0)) :
    m' = m.setFlags (frameOf page.physicalAddress) 0b101 := by
  obtain ⟨-, ⟨-, same, -⟩ | ⟨accepted, zero, -⟩⟩ := allocPage_cases h
  · exact same
  · rw [allocRefused_of_owned] at accepted
    · cases accepted
    · rw [← zero]
      decide
    · rw [setFlags_physFrames, if_pos rfl]

theorem setFlags_setFlags (x y : U8) : (m.setFlags f x).setFlags f y = m.setFlags f y := by
  unfold setFlags Memory.setFrame
  dsimp only
  rw [Function.update_self, Function.update_idem]

theorem setFlags_flags (x : U8) : ((m.setFlags f x).physFrames f).flags = x := by
  rw [setFlags_physFrames, if_pos rfl]

/-- `malloc` fails at a user address: by then the frame is the kernel's. -/
theorem malloc_user (user : nextPageAddress t < virtualMemoryBarrier)
    (h : malloc m t = some (m', t', a)) :
    m' = m.setFlags (frameOf (findNextFreePhysical m)) 0 := by
  obtain ⟨m₁, mapped, ended⟩ := malloc_cases h
  obtain ⟨-, ⟨-, rfl, rfl⟩ | ⟨accepted, -⟩⟩ := allocPage_cases mapped
  · obtain ⟨-, -, rfl⟩ | ⟨nonzero, -⟩ := ended
    · rw [setFlags_setFlags, setFlags_setFlags]
    · exact absurd rfl nonzero
  · have refused : allocRefused (m.setFlags (frameOf (findNextFreePhysical m)) 0b101)
        ⟨⟨kernelFlags, true⟩, nextPageAddress t, findNextFreePhysical m⟩ = true :=
      allocRefused_of_owned user (setFlags_flags _)
    cases refused.symm.trans accepted

/-- `malloc` succeeds at a kernel address. -/
theorem malloc_kernel (high : ¬nextPageAddress t < virtualMemoryBarrier)
    (h : malloc m t = some (m', t', a)) :
    ∃ m₁, allocPage (m.setFlags (frameOf (findNextFreePhysical m)) 0b101)
        ⟨⟨kernelFlags, true⟩, nextPageAddress t, findNextFreePhysical m⟩ = some (m₁, a) ∧
      t' = { t with pageCount := t.pageCount + 1 } ∧
      m' = m₁.setFlags (frameOf (findNextFreePhysical m)) 0b101 := by
  obtain ⟨m₁, mapped, ⟨rfl, -, -⟩ | ⟨-, ended⟩⟩ := malloc_cases h
  · obtain ⟨-, ⟨refused, -⟩ | ⟨-, zero, -⟩⟩ := allocPage_cases mapped
    · simp only [allocRefused, setFlags_flags, high, decide_false, Bool.and_false,
        Bool.or_false] at refused
      exact absurd refused (by decide)
    · change 0 = nextPageAddress t at zero
      rw [← zero] at high
      exact absurd (by decide) high
  · exact ⟨m₁, mapped, ended⟩

theorem malloc_marks (h : malloc m t = some (m', t', a)) : KeepsMarks m m' := by
  obtain ⟨m₁, hb, ⟨rfl, -, rfl⟩ | ⟨-, -, rfl⟩⟩ := malloc_cases h
  · obtain rfl := malloc_refused ⟨⟨kernelFlags, true⟩, _, findNextFreePhysical m⟩ hb
    refine .off (by simp only [setFlags_totalMem]) findNextFreePhysical_unmarked
      fun g hg => ?_
    simp only [setFlags_physFrames, if_neg hg]
  · exact ((KeepsMarks.five _).trans (allocPage_marks hb)).trans (.five _)

theorem memSetBit_marks (m : Memory) (a : U64) : KeepsMarks m (memSetBit m a) := by
  have kernel : ∀ x : U8, x &&& 0b100 ≠ 0 → (x ||| 1) &&& 0b100 ≠ 0 := by decide
  have used : ∀ x : U8, x &&& 0b111 ≠ 0 → (x ||| 1) &&& 0b111 ≠ 0 := by decide
  have marked : KeepsMarks m (m.setFlags (frameOf a) ((m.physFrames (frameOf a)).flags ||| 1)) :=
    .setFrame (kernel _) (used _)
  exact marked.trans (.of_frames rfl rfl)

/-- Clearing the bit "used" leaves the kernel's. -/
theorem memClearBit_owned (m : Memory) (a : U64) : KeepsOwned m (memClearBit m a) := by
  have kernel : ∀ x : U8, x &&& 0b100 ≠ 0 → (x &&& ~~~1) &&& 0b100 ≠ 0 := by decide
  have cleared : KeepsOwned m (m.setFlags (frameOf a) ((m.physFrames (frameOf a)).flags &&& ~~~1)) :=
    .setFrame (kernel _)
  exact cleared.trans (.of_frames rfl rfl)

theorem dropReference_owned (m : Memory) (a : U64) : KeepsOwned m (dropReference m a) := by
  unfold dropReference
  dsimp only
  refine KeepsOwned.trans ?_ (.setFrame id)
  split
  · exact memClearBit_owned m a
  · exact KeepsOwned.of_frames rfl rfl

theorem freePage_owned (m : Memory) (page : PageDetails) : KeepsOwned m (freePage m page).1 := by
  unfold freePage
  split
  · exact KeepsOwned.of_frames rfl rfl
  · exact ((dropReference_owned m _).trans (walk_marks _ _).toKeepsOwned).trans
      (.of_frames rfl rfl)

theorem dropReference_of_ne (m : Memory) (a : U64) (h : f ≠ frameOf a) :
    (dropReference m a).physFrames f = m.physFrames f := by
  unfold dropReference
  dsimp only
  split
  · simp [memClearBit, setFlags, setFrame, h]
  · simp [setFrame, h]

/-- `free_page` leaves the marks of the other frames, and of the kernel's. -/
theorem freePage_marked (hf : f ≠ 0) (marked : m.marked f = true)
    (spared : f ≠ frameOf page.physicalAddress ∨ m.owned f = true) :
    (freedPage m page).marked f = true := by
  rcases spared with other | kernel
  · unfold freedPage freePage
    split
    · exact marked
    · have dropped : (dropReference m page.physicalAddress).marked f = true := by
        rwa [Memory.marked, dropReference_of_ne m _ other]
      exact ((walk_marks _ _).trans (.of_frames rfl rfl)).marked f hf dropped
  · exact Memory.marked_of_owned ((freePage_owned m page).owned f hf kernel)

/-- A frame that the scan returns. -/
theorem findNextFreePhysical_cases (h : findNextFreePhysical m ≠ 0) :
    ∃ f ≠ 0, f < frameCount m ∧ m.marked f = false ∧ frameOf (findNextFreePhysical m) = f := by
  have unmarked := findNextFreePhysical_unmarked (m := m)
  unfold findNextFreePhysical at h unmarked ⊢
  split at h
  next f found =>
    have inRange := List.mem_range.mp (List.mem_of_find?_eq_some found)
    have bound : f < 2 ^ 52 := by
      have := m.totalMem.isLt
      unfold frameCount at inRange
      omega
    have nonzero : f ≠ 0 := by
      rintro rfl
      exact h rfl
    simp only [found, frameOf_physOf bound] at unmarked ⊢
    exact ⟨f, nonzero, inRange, unmarked nonzero, rfl⟩
  next => exact absurd rfl h

end ChudOS
