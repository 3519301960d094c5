import ChudOS.LowLevel.FrameMarks

/-!
# When `malloc` succeeds cleanly or not at all

At an address of the kernel `malloc` never fails: without a free frame it maps frame 0. At an address
of a user program it always fails, since the frame it has just marked for the kernel is then refused,
and it clears the flags of that frame, whatever they were.
-/

namespace ChudOS

open Memory

variable {m m' : Memory} {t t' : TaskMemoryDefinition} {a : U64} {f : Nat}

/-! ## What `malloc` promises -/

/-- `malloc` has failed, and nothing has changed. -/
structure MallocRefused (m m' : Memory) (t t' : TaskMemoryDefinition) (a : U64) : Prop where
  null : a = 0
  frames : m'.physFrames = m.physFrames
  tables : m'.ram = m.ram
  pageCount : t'.pageCount = t.pageCount

/-- `malloc` has mapped a page on a frame that was free. -/
structure MallocGranted (m m' : Memory) (t t' : TaskMemoryDefinition) (a : U64) : Prop where
  aligned : a.toNat % 0x1000 = 0
  backed : ∃ f ≠ 0, translate m' a = some f ∧ m.Free f ∧ m'.marked f = true
  pageCount : t'.pageCount = t.pageCount + 1

/-- `malloc` returns, and either refuses or grants a page; it refuses when no frame is free. -/
def MallocClean (m : Memory) (t : TaskMemoryDefinition) : Prop :=
  ∃ m' t' a, malloc m t = some (m', t', a) ∧
    (MallocRefused m m' t t' a ∨ MallocGranted m m' t t' a) ∧ ((∀ f, ¬m.Free f) → a = 0)

/-- The condition for it. At a user address the flags to be cleared are clear already, at a kernel
address the base is aligned and the scan finds a frame other than frame 0. -/
def MallocHolds (m : Memory) (t : TaskMemoryDefinition) : Prop :=
  if nextPageAddress t < virtualMemoryBarrier then
    m.totalMem ≠ 0 ∧ (m.physFrames (frameOf (findNextFreePhysical m))).flags = 0
  else t.baseVirtualAddress.toNat % 0x1000 = 0 ∧ findNextFreePhysical m ≠ 0

/-- The page tables in use are sound, and there are frames for the page and for the page tables that
are missing on the way to `v`. -/
def RoomFor (m : Memory) (v : U64) : Prop :=
  m.paging.cr3 = m.paging.pml4Physical ∧ Forest m {frameOf m.paging.pml4Physical} ∧
    m.HasFree (m.missing (frameOf m.paging.pml4Physical) v + 1)

/-! ## User addresses -/

theorem findNextFreePhysical_lt (h : m.totalMem ≠ 0) : findNextFreePhysical m < m.totalMem := by
  have pos : 0 < m.totalMem.toNat := Nat.pos_of_ne_zero fun eq => h (BitVec.eq_of_toNat_eq eq)
  rw [BitVec.lt_def]
  unfold findNextFreePhysical
  split
  next f found =>
    have inRange := List.mem_range.mp (List.mem_of_find?_eq_some found)
    have := m.totalMem.isLt
    unfold frameCount at inRange
    rw [physOf_toNat (by omega)]
    omega
  next => exact pos

theorem malloc_user_eq (user : nextPageAddress t < virtualMemoryBarrier) (h : m.totalMem ≠ 0) :
    malloc m t = some (m.setFlags (frameOf (findNextFreePhysical m)) 0, t, 0) := by
  have refused : allocRefused (m.setFlags (frameOf (findNextFreePhysical m)) 0b101)
      ⟨⟨kernelFlags, true⟩, nextPageAddress t, findNextFreePhysical m⟩ = true :=
    allocRefused_of_owned user (setFlags_flags _)
  have inMemory := findNextFreePhysical_lt h
  have mapped : allocPage (m.setFlags (frameOf (findNextFreePhysical m)) 0b101)
      ⟨⟨kernelFlags, true⟩, nextPageAddress t, findNextFreePhysical m⟩ =
        some (m.setFlags (frameOf (findNextFreePhysical m)) 0b101, 0) := by
    rw [allocPage, if_neg (BitVec.not_le.mpr (by exact inMemory)), if_pos refused]
  rw [malloc, mapped]
  dsimp only [Option.bind_eq_bind, Option.bind_some]
  rw [if_pos rfl, setFlags_setFlags, setFlags_setFlags]

/-- Without memory the machine halts. -/
theorem malloc_totalMem (h : malloc m t = some (m', t', a)) : m.totalMem ≠ 0 := by
  intro none
  obtain ⟨m₁, mapped, -⟩ := malloc_cases h
  have inMemory := (allocPage_cases mapped).1
  rw [setFlags_totalMem, none] at inMemory
  exact absurd inMemory BitVec.not_lt_zero

theorem setFlags_eq_self {x : U8} (h : (m.setFlags f x).physFrames = m.physFrames) :
    (m.physFrames f).flags = x := by
  rw [← h, setFlags_flags]

theorem mallocClean_user (user : nextPageAddress t < virtualMemoryBarrier) :
    MallocClean m t ↔ m.totalMem ≠ 0 ∧
      (m.physFrames (frameOf (findNextFreePhysical m))).flags = 0 := by
  constructor
  · rintro ⟨m', t', a, run, refused | granted, -⟩
    · have memory := malloc_totalMem run
      obtain rfl := congrArg Prod.fst (Option.some.inj (run.symm.trans (malloc_user_eq user memory)))
      exact ⟨memory, setFlags_eq_self refused.frames⟩
    · have memory := malloc_totalMem run
      cases run.symm.trans (malloc_user_eq user memory)
      exact absurd granted.pageCount (by simp)
  · rintro ⟨memory, flags⟩
    have same := setFlags_self flags
    refine ⟨_, _, _, malloc_user_eq user memory, .inl ⟨rfl, ?_, ?_, rfl⟩, fun _ => rfl⟩ <;> rw [same]

/-! ## Kernel addresses -/

theorem nextPageAddress_aligned :
    (nextPageAddress t).toNat % 0x1000 = t.baseVirtualAddress.toNat % 0x1000 := by
  have page : (0x1000 : U64).toNat = 0x1000 := rfl
  simp only [nextPageAddress, BitVec.toNat_add, BitVec.toNat_mul, page]
  omega

/-- `malloc` does not refuse at a kernel address. -/
theorem MallocClean.granted (high : ¬nextPageAddress t < virtualMemoryBarrier)
    (clean : MallocClean m t) : ∃ m' t', malloc m t = some (m', t', nextPageAddress t) ∧
      MallocGranted m m' t t' (nextPageAddress t) ∧ ∃ f, m.Free f := by
  obtain ⟨m', t', a, run, outcome, exhausted⟩ := clean
  have nonzero : nextPageAddress t ≠ 0 := fun zero => high (zero ▸ by decide)
  obtain ⟨m₁, mapped, counted, -⟩ := malloc_kernel high run
  have address : a = nextPageAddress t := by
    obtain ⟨-, ⟨refused, -⟩ | ⟨-, address, -⟩⟩ := allocPage_cases mapped
    · simp only [allocRefused, setFlags_flags, high, decide_false, Bool.and_false,
        Bool.or_false] at refused
      exact absurd refused (by decide)
    · exact address
  subst address
  obtain refused | granted := outcome
  · exact absurd refused.null nonzero
  · refine ⟨m', t', run, granted, ?_⟩
    by_contra none
    exact nonzero (exhausted (not_exists.mp none))

theorem mallocClean_kernel (high : ¬nextPageAddress t < virtualMemoryBarrier)
    (room : RoomFor m (nextPageAddress t)) : MallocClean m t ↔
      t.baseVirtualAddress.toNat % 0x1000 = 0 ∧ findNextFreePhysical m ≠ 0 := by
  obtain ⟨selected, tables, enough⟩ := room
  obtain ⟨n, m', found, run, page, -⟩ := malloc_kernelPage (k := 0) tables rfl
    (BitVec.not_lt.mp high) (enough.mono (by omega))
  have bound := tables.free_lt page.free
  have backed := page.translate (by omega) selected
  constructor
  · intro clean
    obtain ⟨m'', t'', run', granted, -⟩ := clean.granted high
    obtain rfl := congrArg Prod.fst (Option.some.inj (run.symm.trans run'))
    refine ⟨nextPageAddress_aligned.symm.trans granted.aligned, fun zero => ?_⟩
    obtain ⟨f, nonzero, eq, -⟩ := granted.backed
    obtain rfl : n = f := Option.some.inj (backed.symm.trans eq)
    have same := frameOf_physOf (show n < 2 ^ 52 by omega)
    rw [← found, zero] at same
    have frame : frameOf 0 = 0 := by decide
    exact nonzero (same.symm.trans frame)
  · rintro ⟨aligned, nonzero⟩
    refine ⟨m', _, _, run, .inr ⟨nextPageAddress_aligned.trans aligned, ⟨n, ?_, backed, page.free,
      page.marked⟩, rfl⟩, fun none => absurd page.free (none n)⟩
    rintro rfl
    exact nonzero (found.trans (by decide))

/-- Exactly when `malloc` succeeds cleanly or not at all. -/
theorem malloc_clean_iff
    (room : ¬nextPageAddress t < virtualMemoryBarrier → (∃ f, m.Free f) →
      RoomFor m (nextPageAddress t)) : MallocClean m t ↔ MallocHolds m t := by
  unfold MallocHolds
  split
  next user => exact mallocClean_user user
  next high =>
    by_cases free : ∃ f, m.Free f
    · exact mallocClean_kernel high (room high free)
    · refine ⟨fun clean => ?_, fun ⟨_, found⟩ => ?_⟩
      · obtain ⟨_, _, _, _, some⟩ := clean.granted high
        exact absurd some free
      · obtain ⟨f, -, lt, unmarked, -⟩ := findNextFreePhysical_cases found
        exact absurd ⟨f, lt, unmarked⟩ free

/-! ## A machine of sixteen frames -/

/-- A task whose pages start at `base`. -/
def taskAt (base : U64) : TaskMemoryDefinition := ⟨base, 0, 0, 0, 0, 0, 0⟩

/-- An empty PML4 in frame 1, with the flags `x` on the frames from 2 on. -/
def pml4Space (x : U8) : Memory :=
  { emptySpace with physFrames := fun f => if f ≤ 1 then ⟨0, 0b101⟩ else ⟨0, x⟩ }

theorem pml4Space_forest (x : U8) : Forest (pml4Space x) {1} :=
  emptySpace_forest.of_frames rfl rfl fun t ht => by
    rw [emptySpace_isTable ht]
    exact (by decide : ((0b101 : U8) &&& 0b111 != 0) = true)

theorem malloc_clean_first : MallocClean (pml4Space 0) (taskAt virtualMemoryBarrier) := by
  have enough : (pml4Space 0).HasFree 4 := by
    refine ⟨{2, 3, 4, 5}, by decide, fun f hf => ?_⟩
    have : f = 2 ∨ f = 3 ∨ f = 4 ∨ f = 5 := by simpa using hf
    obtain rfl | rfl | rfl | rfl := this <;> exact ⟨by decide, by decide⟩
  have few : (pml4Space 0).missing 1 (nextPageAddress (taskAt virtualMemoryBarrier)) ≤ 3 :=
    Memory.missing_le _ _ _
  refine (malloc_clean_iff fun _ _ => ⟨rfl, pml4Space_forest 0, enough.mono ?_⟩).mpr ?_
  · exact Nat.succ_le_succ few
  · rw [MallocHolds, if_neg (by decide)]
    exact ⟨by decide, by decide⟩

/-- With every frame in use the kernel is given frame 0, and a call for a user program clears the
flags of frame 0. -/
theorem malloc_exhausted_unclean : ¬MallocClean (pml4Space 0b101) (taskAt virtualMemoryBarrier) ∧
    ¬MallocClean (pml4Space 0b101) (taskAt 0x400000) := by
  have used (f : Nat) : ¬(pml4Space 0b101).Free f := by
    rintro ⟨-, unmarked⟩
    unfold Memory.marked pml4Space at unmarked
    dsimp only at unmarked
    split_ifs at unmarked <;> exact absurd unmarked (by decide)
  constructor
  · intro clean
    obtain ⟨_, _, _, _, f, free⟩ := clean.granted (by decide)
    exact used f free
  · intro clean
    have flags := ((mallocClean_user (by decide)).mp clean).2
    exact absurd flags (by decide)

end ChudOS
