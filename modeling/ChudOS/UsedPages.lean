import ChudOS.FrameTable
import ChudOS.InterruptCalls
import ChudOS.LowLevel.TableCalls

/-!
# The counter of used pages

`PhysicalPagesUsed` changes in `mem_SetBit` and `mem_ClearBit` only, which do not look at the bit they
change. `malloc`, `alloc_page` and `EnsureEntry` write the flags of a frame directly.

* `Balanced` — the counter has moved by as much as the number of used frames.
* `Counted` — a call that marks or frees a frame does so through the two functions, once.
-/

namespace ChudOS

open Memory Transition

variable {m m' m'' m₀ : Memory} {f : Nat} {a : U64} {page : PageDetails} {slot : Slot}
  {t t' : TaskMemoryDefinition}

def Memory.used (m : Memory) (f : Nat) : Bool := (m.physFrames f).flags &&& 1 != 0

/-- The frames of the table with the used bit set. -/
def usedFrames (m : Memory) : Finset Nat := {f ∈ Finset.range (frameCount m) | m.used f = true}

/-- The subtraction of `SYSINFO` does not underflow. -/
def UsageFits (m : Memory) : Prop :=
  m.physicalPagesUsed.toNat * 0x1000 ≤ m.availableMem.toNat

/-- Neither the counter nor a used bit has changed. -/
structure SameUse (m m' : Memory) : Prop where
  totalMem : m'.totalMem = m.totalMem
  availableMem : m'.availableMem = m.availableMem
  counter : m'.physicalPagesUsed = m.physicalPagesUsed
  used : ∀ f, m'.used f = m.used f

namespace SameUse

theorem refl : SameUse m m := ⟨rfl, rfl, rfl, fun _ => rfl⟩

theorem trans (h : SameUse m m') (g : SameUse m' m'') : SameUse m m'' :=
  ⟨g.totalMem.trans h.totalMem, g.availableMem.trans h.availableMem, g.counter.trans h.counter,
    fun f => (g.used f).trans (h.used f)⟩

theorem setEntry (s : Slot) (x : U64) : SameUse m (m.setEntry s x) :=
  ⟨rfl, rfl, rfl, fun _ => rfl⟩

theorem zeroFrame (f : Nat) : SameUse m (m.zeroFrame f) := ⟨rfl, rfl, rfl, fun _ => rfl⟩

/-- The used bit of the one frame that changes stays. -/
theorem setFrame {x : PhysicalFrame} (same : (x.flags &&& 1 != 0) = m.used f) :
    SameUse m (m.setFrame f x) := by
  refine ⟨rfl, rfl, rfl, fun g => ?_⟩
  by_cases h : g = f
  · subst h
    simpa only [Memory.used, Memory.setFrame, Function.update_self] using same
  · simp only [Memory.used, Memory.setFrame, Function.update_of_ne h]

theorem recount (f : Nat) (n : U32) :
    SameUse m (m.setFrame f { m.physFrames f with refcount := n }) := setFrame rfl

/-- The mark of a page table, on a frame that is used. -/
theorem five (h : m.used f = true) : SameUse m (m.setFlags f 0b101) := by
  have bit : ((0b101 : U8) &&& 1 != 0) = true := by decide
  exact setFrame (bit.trans h.symm)

end SameUse

/-- From `m` to `m'` the counter and the number of used frames have changed by the same amount. -/
structure Balanced (m m' : Memory) : Prop where
  totalMem : m'.totalMem = m.totalMem
  counter : (m'.physicalPagesUsed.toNat : Int) - m.physicalPagesUsed.toNat =
    (usedFrames m').card - (usedFrames m).card
  fits : UsageFits m → UsageFits m'

namespace Balanced

theorem trans (h : Balanced m m') (g : Balanced m' m'') : Balanced m m'' := by
  refine ⟨g.totalMem.trans h.totalMem, ?_, g.fits ∘ h.fits⟩
  have first := h.counter
  have second := g.counter
  omega

theorem of_same (h : SameUse m m') : Balanced m m' := by
  refine ⟨h.totalMem, ?_, fun fits => ?_⟩
  · have frames : usedFrames m' = usedFrames m := by
      simp only [usedFrames, frameCount, h.totalMem, h.used]
    rw [h.counter, frames, Int.sub_self, Int.sub_self]
  · rwa [UsageFits, h.counter, h.availableMem]

end Balanced

/-! ## The two functions that count -/

/-- The frame lies in the table and is not used, and `SYSINFO` can subtract one page more. -/
structure SetCounted (m : Memory) (address : U64) : Prop where
  inTable : frameOf address < frameCount m
  unused : m.used (frameOf address) = false
  fits : (m.physicalPagesUsed.toNat + 1) * 0x1000 ≤ m.availableMem.toNat

structure ClearCounted (m : Memory) (address : U64) : Prop where
  inTable : frameOf address < frameCount m
  used : m.used (frameOf address) = true
  counted : m.physicalPagesUsed ≠ 0

theorem memSetBit_used (m : Memory) (a : U64) (g : Nat) :
    (memSetBit m a).used g = (decide (g = frameOf a) || m.used g) := by
  have bit : ∀ x : U8, ((x ||| 1) &&& 1 != 0) = true := by decide
  by_cases hg : g = frameOf a
  · simp only [Memory.used, memSetBit, setFlags, Memory.setFrame, hg, Function.update_self, bit,
      decide_true, Bool.true_or]
  · simp only [Memory.used, memSetBit, setFlags, Memory.setFrame, Function.update_of_ne hg,
      decide_eq_false hg, Bool.false_or]

theorem memClearBit_used (m : Memory) (a : U64) (g : Nat) :
    (memClearBit m a).used g = (decide (g ≠ frameOf a) && m.used g) := by
  have bit : ∀ x : U8, ((x &&& ~~~1) &&& 1 != 0) = false := by decide
  by_cases hg : g = frameOf a
  · simp only [Memory.used, memClearBit, setFlags, Memory.setFrame, hg, Function.update_self, bit,
      ne_eq, not_true, decide_false, Bool.false_and]
  · simp only [Memory.used, memClearBit, setFlags, Memory.setFrame, Function.update_of_ne hg,
      ne_eq, hg, not_false_iff, decide_true, Bool.true_and]

theorem mem_usedFrames : f ∈ usedFrames m ↔ f < frameCount m ∧ m.used f = true := by
  simp [usedFrames]

theorem memSetBit_usedFrames (h : SetCounted m a) :
    usedFrames (memSetBit m a) = insert (frameOf a) (usedFrames m) := by
  have count : frameCount (memSetBit m a) = frameCount m := rfl
  have inTable := h.inTable
  ext g
  rw [Finset.mem_insert, mem_usedFrames, mem_usedFrames, memSetBit_used, count]
  grind

theorem memSetBit_balanced (h : SetCounted m a) : Balanced m (memSetBit m a) := by
  have fits := h.fits
  have top := m.availableMem.isLt
  have count : (memSetBit m a).physicalPagesUsed.toNat = m.physicalPagesUsed.toNat + 1 := by
    have one : (1 : U64).toNat = 1 := rfl
    simp only [memSetBit, BitVec.toNat_add, one]
    omega
  refine ⟨rfl, ?_, fun _ => ?_⟩
  · have new : frameOf a ∉ usedFrames m := by
      simp [usedFrames, h.unused]
    rw [memSetBit_usedFrames h, Finset.card_insert_of_notMem new, count]
    omega
  · rw [UsageFits, count]
    exact fits

theorem memClearBit_usedFrames (m : Memory) (a : U64) :
    usedFrames (memClearBit m a) = (usedFrames m).erase (frameOf a) := by
  have count : frameCount (memClearBit m a) = frameCount m := rfl
  ext g
  rw [Finset.mem_erase, mem_usedFrames, mem_usedFrames, memClearBit_used, count]
  grind

theorem memClearBit_balanced (h : ClearCounted m a) : Balanced m (memClearBit m a) := by
  have count : (memClearBit m a).physicalPagesUsed.toNat + 1 = m.physicalPagesUsed.toNat := by
    have one : (1 : U64).toNat = 1 := rfl
    have nonzero : m.physicalPagesUsed.toNat ≠ 0 :=
      fun zero => h.counted (BitVec.eq_of_toNat_eq zero)
    have top := m.physicalPagesUsed.isLt
    simp only [memClearBit, BitVec.toNat_sub, one]
    omega
  refine ⟨rfl, ?_, fun fits => ?_⟩
  · have old : frameOf a ∈ usedFrames m := by
      simp [usedFrames, h.used, h.inTable]
    have card := Finset.card_erase_add_one old
    rw [memClearBit_usedFrames]
    omega
  · have smaller : (memClearBit m a).physicalPagesUsed.toNat ≤ m.physicalPagesUsed.toNat := by
      omega
    exact (Nat.mul_le_mul_right _ smaller).trans fits

/-! ## Page tables -/

/-- The frame that `FindNextFreePhysical` returns is used already: frame 0, when none is left. -/
def FindsUsed (m : Memory) : Prop := m.used (frameOf (findNextFreePhysical m)) = true

instance : DecidablePred FindsUsed := fun _ => inferInstanceAs (Decidable (_ = _))

theorem ensureEntry_use {flags : U8} (h : EnsureTakes FindsUsed m slot) :
    SameUse m (ensureEntry m slot flags) := by
  unfold ensureEntry
  dsimp only
  split
  next absent => exact ((SameUse.five (h absent)).trans (.zeroFrame _)).trans (.setEntry _ _)
  next => exact .refl

theorem walk_use {e : PageEntries} (h : WalkTakes FindsUsed m e) :
    SameUse m (calculatePagePhysicalEntryAddress m e).1 := by
  obtain ⟨h₁, h₂, h₃⟩ := h
  exact ((ensureEntry_use h₁).trans (ensureEntry_use h₂)).trans (ensureEntry_use h₃)

theorem walkEntry_use {e : PageEntries} {x : U64} (h : WalkTakes FindsUsed m e) :
    SameUse m ((calculatePagePhysicalEntryAddress m e).1.setEntry
      (calculatePagePhysicalEntryAddress m e).2 x) :=
  (walk_use h).trans (.setEntry _ _)

/-! ## The calls -/

/-- `alloc_page` gives no new frame to a user program, which it would mark but not count. -/
def AllocCounted (m : Memory) (page : PageDetails) : Prop :=
  AllocTakes FindsUsed m page ∧ (allocRefused m page = false →
    page.virtualAddress < virtualMemoryBarrier →
      (m.physFrames (frameOf page.physicalAddress)).refcount = 0 →
        m.used (frameOf page.physicalAddress) = true)

def AllocNoInvlpgCounted (m : Memory) (page : PageDetails) : Prop :=
  AllocNoInvlpgTakes FindsUsed m page ∧
    ((m.physFrames (frameOf page.physicalAddress)).flags &&& 0b10 ≠ 0b10 →
      page.virtualAddress < virtualMemoryBarrier →
        (m.physFrames (frameOf page.physicalAddress)).refcount = 0 →
          SetCounted m page.physicalAddress)

def FreeCounted (m : Memory) (page : PageDetails) : Prop :=
  FreeTakes FindsUsed m page ∧ (freeOutOfBounds m page.virtualAddress = false →
    (m.physFrames (frameOf page.physicalAddress)).refcount = 1 →
      ClearCounted m page.physicalAddress)

/-- `malloc` marks the frame it finds before it maps it, and makes it free when it fails. -/
def MallocCounted (m : Memory) (t : TaskMemoryDefinition) : Prop :=
  (nextPageAddress t < virtualMemoryBarrier →
    m.used (frameOf (findNextFreePhysical m)) = false) ∧
  (¬nextPageAddress t < virtualMemoryBarrier → MallocTakes FindsUsed m t)

/-- The frame of the copy is not in use. -/
def CoWCounted (m : Memory) (slot : Slot) : Prop :=
  1 < (m.physFrames (pteFrame (m.entry slot))).refcount →
    SetCounted (giveUpShare m slot) (findNextFreePhysical (giveUpShare m slot))

theorem countReference_use (fresh : page.virtualAddress < virtualMemoryBarrier →
    (m.physFrames (frameOf page.physicalAddress)).refcount = 0 →
      m.used (frameOf page.physicalAddress) = true) : SameUse m (countReference m page) := by
  have bit : ((0b1 : U8) &&& 1 != 0) = true := by decide
  unfold countReference
  dsimp only
  split
  next user =>
    split
    next zero => exact (SameUse.setFrame (bit.trans (fresh user zero).symm)).trans (.recount _ _)
    next => exact .recount _ _
  next => exact .refl

theorem allocPage_use (h : allocPage m page = some (m', a)) (counted : AllocCounted m page) :
    SameUse m m' := by
  obtain ⟨-, ⟨-, rfl, -⟩ | ⟨accepted, -, rfl⟩⟩ := allocPage_cases h
  · exact .refl
  · exact (countReference_use (counted.2 accepted)).trans (walkEntry_use (counted.1 accepted))

theorem mallocSpecific_use {b : U64} {p : PagePermissions}
    (h : mallocSpecific m t a p = some (m', t', b))
    (counted : AllocCounted m ⟨p, nextPageAddress t, a⟩) : SameUse m m' := by
  unfold mallocSpecific at h
  simp only [Option.bind_eq_bind, Option.bind_eq_some_iff, Prod.exists] at h
  obtain ⟨m₁, c, hc, h⟩ := h
  split at h <;> (cases h; exact allocPage_use hc counted)

theorem allocPageNoInvlpg_balanced (h : allocPageNoInvlpg m page = some (m', a))
    (counted : AllocNoInvlpgCounted m page) : Balanced m m' := by
  unfold allocPageNoInvlpg at h
  split at h
  next => cases h
  next =>
    split at h
    next => cases h; exact .of_same .refl
    next clean =>
      simp only [beq_iff_eq] at clean
      obtain ⟨takes, fresh⟩ := counted
      cases h
      have reference : Balanced m (countReferenceNoInvlpg m page) := by
        unfold countReferenceNoInvlpg
        dsimp only
        split
        next user =>
          split
          next zero =>
            exact (memSetBit_balanced (fresh clean user zero)).trans (.of_same (.recount _ _))
          next => exact .of_same (.recount _ _)
        next => exact .of_same .refl
      exact reference.trans (.of_same (walkEntry_use (takes clean)))

theorem freedPage_balanced (counted : FreeCounted m page) : Balanced m (freedPage m page) := by
  obtain ⟨takes, last⟩ := counted
  unfold freedPage freePage
  split
  next => exact .of_same .refl
  next bound =>
    simp only [Bool.not_eq_true] at bound
    have dropped : Balanced m (dropReference m page.physicalAddress) := by
      unfold dropReference
      dsimp only
      split
      next one => exact (memClearBit_balanced (last bound one)).trans (.of_same (.recount _ _))
      next => exact .of_same (.recount _ _)
    exact dropped.trans (.of_same (walkEntry_use (takes bound)))

theorem malloc_use (h : malloc m t = some (m', t', a)) (counted : MallocCounted m t) :
    SameUse m m' := by
  have bit : ((0 : U8) &&& 1 != 0) = false := by decide
  by_cases user : nextPageAddress t < virtualMemoryBarrier
  · have unused := counted.1 user
    rw [malloc_user user h]
    exact .setFrame (bit.trans unused.symm)
  · obtain ⟨m₁, mapped, -, rfl⟩ := malloc_kernel user h
    obtain ⟨found, takes⟩ := counted.2 user
    have alloc := (SameUse.five found).trans
      (allocPage_use mapped ⟨takes, fun _ low => absurd low user⟩)
    exact alloc.trans (.five ((alloc.used _).trans found))

theorem resolveCoW_balanced {v : U64} (h : resolveCoW m slot v = some m')
    (counted : CoWCounted m slot) : Balanced m m' := by
  unfold resolveCoW at h
  dsimp only at h
  split at h
  next => cases h; exact .of_same (.setEntry _ _)
  next shared =>
    simp only [copyPage, Option.bind_eq_bind, Option.bind_eq_some_iff] at h
    obtain ⟨src, -, dst, -, h⟩ := h
    cases h
    have given : SameUse m (giveUpShare m slot) := (SameUse.recount _ _).trans (.setEntry _ _)
    have fresh := counted (BitVec.not_le.mp shared)
    have copied : Balanced (giveUpShare m slot) (mapFresh (giveUpShare m slot) slot (m.entry slot)) :=
      (Balanced.of_same (.setEntry _ _)).trans
        (memSetBit_balanced ⟨fresh.inTable, fresh.unused, fresh.fits⟩)
    exact ((Balanced.of_same given).trans copied).trans (.of_same ⟨rfl, rfl, rfl, fun _ => rfl⟩)

/-! ## Runs -/

/-- What may follow the end of `InitMem`. The rest of the kernel touches memory by such calls. -/
inductive PageCall where
  | memory (c : MemoryCall)
  | allocPageNoInvlpg (page : PageDetails)

def PageCall.run (m : Memory) : PageCall → Option Memory
  | .memory c => c.run m
  | .allocPageNoInvlpg page => (ChudOS.allocPageNoInvlpg m page).map (·.1)

/-- The runs from the memory `m₀`. -/
def usageSystem (m₀ : Memory) : LTS Memory PageCall where
  init m := m = m₀
  step m c m' := c.run m = some m'

/-- Whatever the kernel does in an interrupt, in a fault or while it tears a task down is a run of
these calls. -/
theorem usage_calls {ok : Memory → PageCall → Prop} (h : Reachable (usageSystem m₀) ok m)
    (calls : MemoryCalls m m') (meets : ∀ m c, ok m (.memory c)) :
    Reachable (usageSystem m₀) ok m' := by
  obtain ⟨cs, run⟩ := calls
  induction run with
  | nil => exact h
  | cons step _ ih => exact ih (h.step (meets _ _) step)

/-- The call moves the counter by as much as the number of used frames. -/
def PageCall.Counted (m : Memory) : PageCall → Prop
  | .memory (.malloc t) => MallocCounted m t
  | .memory (.mallocSpecific t a p) => AllocCounted m ⟨p, nextPageAddress t, a⟩
  | .memory (.commandList t) =>
    AllocCounted m (foundPage m ⟨kernelFlagsUncacheable, false⟩ (nextPageAddress t))
  | .memory (.allocPage page) => AllocCounted m page
  | .memory (.allocFound p v) => AllocCounted m (foundPage m p v)
  | .memory (.walk v) => WalkTakes FindsUsed m (extractPageEntries v)
  | .memory (.resolveCoW slot _) => CoWCounted m slot
  | .memory (.freePage page) => FreeCounted m page
  | .memory (.setCr3 _) => True
  | .memory (.write _) => True
  | .allocPageNoInvlpg page => AllocNoInvlpgCounted m page

/-- One step. -/
theorem PageCall.run_balanced {c : PageCall} (h : c.run m = some m') (counted : c.Counted m) :
    Balanced m m' := by
  cases c with
  | allocPageNoInvlpg page =>
    simp only [PageCall.run, Option.map_eq_some_iff, Prod.exists, exists_and_right,
      exists_eq_right] at h
    obtain ⟨a, h⟩ := h
    exact allocPageNoInvlpg_balanced h counted
  | memory c =>
    cases c <;> simp only [PageCall.run, MemoryCall.run, Option.map_eq_some_iff, Option.some.injEq,
      Prod.exists, exists_and_right, exists_eq_right] at h
    case malloc t =>
      obtain ⟨t', b, h⟩ := h
      exact .of_same (malloc_use h counted)
    case mallocSpecific t a p =>
      obtain ⟨t', b, h⟩ := h
      exact .of_same (mallocSpecific_use h counted)
    case commandList t =>
      obtain ⟨t', b, h⟩ := h
      exact .of_same (mallocSpecific_use h counted)
    case allocPage page =>
      obtain ⟨b, h⟩ := h
      exact .of_same (allocPage_use h counted)
    case allocFound p v =>
      obtain ⟨b, h⟩ := h
      exact .of_same (allocPage_use h counted)
    case walk v => exact h ▸ .of_same (walk_use counted)
    case resolveCoW slot v => exact resolveCoW_balanced h counted
    case freePage page => exact h ▸ freedPage_balanced counted
    case setCr3 a => exact h ▸ .of_same ⟨rfl, rfl, rfl, fun _ => rfl⟩
    case write ram => exact h ▸ .of_same ⟨rfl, rfl, rfl, fun _ => rfl⟩

/-- The counter has moved by as much as the number of used frames, and what is available minus what
is used is no negative number. -/
def CounterExact (m₀ m : Memory) : Prop :=
  (m.physicalPagesUsed.toNat : Int) - m₀.physicalPagesUsed.toNat =
    (usedFrames m).card - (usedFrames m₀).card ∧ UsageFits m

/-- The counter is exact as long as every call is counted. -/
theorem counter_exact (fits : UsageFits m₀)
    (h : Reachable (usageSystem m₀) (fun m c => c.Counted m) m) : CounterExact m₀ m := by
  have balanced : Balanced m₀ m := by
    refine h.invariant (P := Balanced m₀) ?_ ?_
    · rintro m rfl
      exact .of_same .refl
    · intro m c m' hm counted step
      exact hm.trans (c.run_balanced step counted)
  exact ⟨balanced.counter, balanced.fits fits⟩

/-! ## One page, counted and not -/

/-- Frames 1 to 4 are the tables of one address space, in which address 0 is not mapped. -/
def tablesOnly : Memory where
  ram f i := if 1 ≤ f ∧ f ≤ 3 ∧ i = 0 then physOf (f + 1) ||| 7 else 0
  physFrames f := if f < 5 then ⟨0, 0b101⟩ else ⟨0, 0⟩
  totalMem := 0x8000
  availableMem := 0x8000
  physicalPagesUsed := 0
  virtualMemorySize := 32
  paging := ⟨0x1000, 0x1000, 0x1000⟩

theorem counter_exact_page : ∃ r,
    allocPageNoInvlpg tablesOnly ⟨⟨userFlags, false⟩, 0, 0x5000⟩ = some r ∧
      CounterExact tablesOnly r.1 := by
  have mapped : (allocPageNoInvlpg tablesOnly ⟨⟨userFlags, false⟩, 0, 0x5000⟩).isSome = true := by
    decide +kernel
  obtain ⟨r, hr⟩ := Option.isSome_iff_exists.mp mapped
  refine ⟨r, hr, counter_exact (by unfold UsageFits; decide)
    (.step (l := .allocPageNoInvlpg ⟨⟨userFlags, false⟩, 0, 0x5000⟩) (.init rfl) ⟨fun _ => ?_, ?_⟩ ?_)⟩
  · decide +kernel
  · intro _ _ _
    exact ⟨by decide +kernel, by decide +kernel, by decide +kernel⟩
  · change PageCall.run _ (.allocPageNoInvlpg _) = _
    rw [PageCall.run, hr]
    rfl

/-- Frames are marked, and the counter stays. -/
structure MarksUncounted (m m' : Memory) : Prop where
  totalMem : m'.totalMem = m.totalMem
  counter : m'.physicalPagesUsed = m.physicalPagesUsed
  used : ∀ f, m.used f = true → m'.used f = true

namespace MarksUncounted

theorem of_same (h : SameUse m m') : MarksUncounted m m' :=
  ⟨h.totalMem, h.counter, fun f hf => (h.used f).trans hf⟩

theorem trans (h : MarksUncounted m m') (g : MarksUncounted m' m'') : MarksUncounted m m'' :=
  ⟨g.totalMem.trans h.totalMem, g.counter.trans h.counter, fun f hf => g.used f (h.used f hf)⟩

theorem five (f : Nat) : MarksUncounted m (m.setFlags f 0b101) := by
  refine ⟨rfl, rfl, fun g hg => ?_⟩
  have bit : ((0b101 : U8) &&& 1 != 0) = true := by decide
  rw [Memory.used, setFlags_physFrames]
  split
  · exact bit
  · exact hg

end MarksUncounted

theorem ensureEntry_uncounted (m : Memory) (s : Slot) (flags : U8) :
    MarksUncounted m (ensureEntry m s flags) := by
  unfold ensureEntry
  dsimp only
  split
  · exact (MarksUncounted.five _).trans
      (.of_same ((SameUse.zeroFrame _).trans (.setEntry _ _)))
  · exact .of_same .refl

theorem walk_uncounted (m : Memory) (e : PageEntries) :
    MarksUncounted m (calculatePagePhysicalEntryAddress m e).1 :=
  ((ensureEntry_uncounted _ _ _).trans (ensureEntry_uncounted _ _ _)).trans
    (ensureEntry_uncounted _ _ _)

/-- `malloc` never counts the frame it takes. -/
theorem malloc_uncounted (high : ¬nextPageAddress t < virtualMemoryBarrier)
    (found : findNextFreePhysical m ≠ 0) (h : malloc m t = some (m', t', a)) :
    m'.physicalPagesUsed = m.physicalPagesUsed ∧ usedFrames m ⊂ usedFrames m' := by
  obtain ⟨f, nonzero, inTable, unmarked, frame⟩ := findNextFreePhysical_cases found
  obtain ⟨m₁, mapped, -, rfl⟩ := malloc_kernel high h
  rw [frame] at mapped ⊢
  have marks : MarksUncounted m m₁ := by
    apply (MarksUncounted.five f).trans
    obtain ⟨-, ⟨-, rfl, -⟩ | ⟨-, -, rfl⟩⟩ := allocPage_cases mapped
    · exact .of_same .refl
    · have reference : SameUse (m.setFlags f 0b101) (countReference (m.setFlags f 0b101)
          ⟨⟨kernelFlags, true⟩, nextPageAddress t, findNextFreePhysical m⟩) :=
        countReference_use fun low => absurd low high
      exact (MarksUncounted.of_same reference).trans
        ((walk_uncounted _ _).trans (.of_same (.setEntry _ _)))
  have all : MarksUncounted m (m₁.setFlags f 0b101) := marks.trans (.five f)
  refine ⟨all.counter, Finset.ssubset_iff_of_subset ?_ |>.mpr ⟨f, ?_, ?_⟩⟩
  · intro g hg
    rw [mem_usedFrames] at hg ⊢
    exact ⟨by rw [frameCount, all.totalMem]; exact hg.1, all.used g hg.2⟩
  · rw [mem_usedFrames, Memory.used, setFlags_flags]
    exact ⟨by rw [frameCount, all.totalMem]; exact inTable, by decide⟩
  · intro hf
    have used := (mem_usedFrames.mp hf).2
    have bits : ∀ x : U8, (x &&& 1 != 0) = true → (x &&& 0b111 != 0) = true := by decide
    have marked : m.marked f = true := bits _ used
    rw [unmarked] at marked
    cases marked

theorem allocPage_returns (inMemory : page.physicalAddress < m.totalMem) :
    ∃ m' a, allocPage m page = some (m', a) := by
  unfold allocPage
  rw [if_neg (BitVec.not_le.mpr inMemory)]
  split
  · exact ⟨_, _, rfl⟩
  · exact ⟨_, _, rfl⟩

/-- `malloc` does not halt the machine on a frame of the table. -/
theorem malloc_returns (small : m.totalMem.toNat < 2 ^ 47) (found : findNextFreePhysical m ≠ 0)
    (t : TaskMemoryDefinition) : ∃ m' t' a, malloc m t = some (m', t', a) := by
  obtain ⟨n, -, -, free, phys⟩ := found_free small found
  have inMemory : findNextFreePhysical m < m.totalMem := by
    rw [phys]
    exact physOf_lt_totalMem small free.1
  obtain ⟨m₁, a, alloc⟩ : ∃ m₁ a, allocPage
      (m.setFlags (frameOf (findNextFreePhysical m)) 0b101)
      ⟨⟨kernelFlags, true⟩, nextPageAddress t, findNextFreePhysical m⟩ = some (m₁, a) :=
    allocPage_returns inMemory
  unfold malloc
  simp only [alloc, Option.bind_eq_bind, Option.bind_some]
  split
  · exact ⟨_, _, _, rfl⟩
  · exact ⟨_, _, _, rfl⟩

/-- The first `malloc` after `InitMem` is not counted. -/
theorem counter_inexact : ¬∀ (fuel : Nat) (ram : Nat → Nat → U64) (frames : Nat → PhysicalFrame)
    (cr3 : U64) (kernelMemory : TaskMemoryDefinition) (ds : List E820RangeDescriptor)
    (m₀ : Memory) (t : TaskMemoryDefinition) (pml4 : U64),
    initMem fuel (bootMemory ram frames cr3) kernelMemory ds = some (m₀, t, pml4) →
      ∀ m, Reachable (usageSystem m₀) (fun _ _ => True) m → CounterExact m₀ m := by
  intro claimed
  obtain ⟨m₀, t, pml4, booted, found, -⟩ := small_booted ⟨0x4000000, 0x4000000, 1⟩
  have total : m₀.totalMem = 0x8000000 := by
    rw [(initMem_spec booted).1, smallMap_total]
    decide
  have high : ¬nextPageAddress smallRegions < virtualMemoryBarrier := by decide
  obtain ⟨m, t', a, result⟩ := malloc_returns (by rw [total]; decide) found smallRegions
  obtain ⟨counter, more⟩ := malloc_uncounted high found result
  obtain ⟨moved, -⟩ := claimed _ _ _ _ _ _ m₀ t pml4 booted m
    (.step (l := .memory (.malloc smallRegions)) (.init rfl) trivial
      (by change MemoryCall.run m₀ (.malloc smallRegions) = _; rw [MemoryCall.run, result]; rfl))
  have card := Finset.card_lt_card more
  rw [counter] at moved
  omega

end ChudOS
