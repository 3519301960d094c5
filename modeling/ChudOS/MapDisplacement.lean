import ChudOS.Library.Transition
import ChudOS.PhysicalMap

/-!
# What the pages of the kernel do to the direct map

`malloc` maps the next page of `KernelTask`, which has its own number in the direct map, on the
first free frame. Unless this happens to be the frame of that number, the kernel no longer finds the
latter.

## Main definitions

* `MapCall`, `mapSystem` — pages of the kernel and of user programs, in any order.
* `MapHolds` — the kernel finds some frames at their direct pages.
-/

namespace ChudOS

open Memory Transition

/-- The memory, and the regions of `KernelTask`. -/
structure MapState where
  mem : Memory
  kernelTask : TaskMemoryDefinition

/-- The page that `malloc` maps, by its number in the direct map, and the frame it gets; or a page of
a user program. -/
inductive MapCall where
  | malloc (number frame : Nat)
  | userPage (page : PageDetails)

inductive MapStep (s : MapState) : MapCall → MapState → Prop
  | malloc {m : Memory} {t : TaskMemoryDefinition} {a : U64} :
      ChudOS.malloc s.mem s.kernelTask = some (m, t, a) →
      MapStep s (.malloc (s.kernelTask.pageCount.toNat + 1) (frameOf (findNextFreePhysical s.mem)))
        ⟨m, t⟩
  | userPage {page : PageDetails} {m : Memory} {a : U64} : page.virtualAddress.toNat < 2 ^ 47 →
      allocPage s.mem page = some (m, a) → MapStep s (.userPage page) ⟨m, s.kernelTask⟩

/-- Frames are left for the page and its tables. The kernel finds these frames and the tables that
there are at their direct pages, by which it reaches them, and its own pages have not come to the end
of the address space. -/
structure MapRoom (s : MapState) : Prop where
  free : ∃ b, s.mem.HasFreeBelow 5 b ∧
    ∀ f < b, s.mem.Free f → translate s.mem (directPage f) = some f
  tables : ∀ t, IsTable s.mem {frameOf s.mem.paging.cr3} t → translate s.mem (directPage t) = some t
  number : s.kernelTask.pageCount.toNat + 1 < 2 ^ 35

theorem MapRoom.hasFree {s : MapState} (room : MapRoom s) : s.mem.HasFree 5 := by
  obtain ⟨b, free, -⟩ := room.free
  exact free.hasFree

/-- The calls that are made while there is room. -/
def mapSystem : LTS MapState MapCall where
  init _ := True
  step s c s' := MapRoom s ∧ MapStep s c s'

variable {roots : Set Nat} {s s' : MapState} {c : MapCall} {cs : List MapCall} {F : Set Nat}
  {f number frame : Nat}

/-- The address space in use is sound, and the pages of the kernel lie in the direct map. -/
structure MapSound (roots : Set Nat) (s : MapState) : Prop where
  forest : Forest s.mem roots
  root : frameOf s.mem.paging.pml4Physical ∈ roots
  selected : s.mem.paging.cr3 = s.mem.paging.pml4Physical
  base : s.kernelTask.baseVirtualAddress = virtualMemoryBarrier

/-- The kernel finds the frames at their direct pages. -/
def MapHolds (F : Set Nat) (s : MapState) : Prop :=
  ∀ f ∈ F, translate s.mem (directPage f) = some f

theorem MapSound.translate_eq (h : MapSound roots s) (a : U64) :
    translate s.mem a = found s.mem (frameOf s.mem.paging.pml4Physical) a := by
  rw [translate_found, h.selected]

/-- What a page of the kernel changes. -/
theorem MapSound.malloc (h : MapSound roots s) (room : MapRoom s)
    (step : MapStep s (.malloc number frame) s') : MapSound roots s' ∧
      number = s.kernelTask.pageCount.toNat + 1 ∧
      s'.kernelTask.pageCount.toNat = s.kernelTask.pageCount.toNat + 1 ∧
      ∀ f < 2 ^ 35, translate s'.mem (directPage f) =
        if f = number then some frame else translate s.mem (directPage f) := by
  cases step with
  | @malloc m t a result =>
    have next := nextPageAddress_direct h.base room.number
    obtain ⟨n, m', first, result', page, -, -, shown⟩ := malloc_found (k := 0) h.forest h.root
      (next ▸ directPage_high room.number) room.hasFree.spare
    obtain ⟨rfl, rfl, -⟩ := by
      simpa only [Option.some.injEq, Prod.mk.injEq] using result.symm.trans result'
    have bound := h.forest.free_lt page.free
    have count : (s.kernelTask.pageCount + 1).toNat = s.kernelTask.pageCount.toNat + 1 := by
      have one : (1 : U64).toNat = 1 := rfl
      have small := room.number
      rw [BitVec.toNat_add, one]
      omega
    have sound : MapSound roots ⟨m, { s.kernelTask with pageCount := s.kernelTask.pageCount + 1 }⟩ := by
      refine ⟨page.keeps.forest, ?_, ?_, h.base⟩
      · rw [page.keeps.layout.1]
        exact h.root
      · rw [page.keeps.layout.1]
        exact h.selected
    refine ⟨sound, rfl, count, fun f lt => ?_⟩
    rw [sound.translate_eq, h.translate_eq, page.keeps.layout.1, shown, next,
      pageNumber_directPage lt, pageNumber_directPage room.number, first,
      frameOf_physOf (show n < 2 ^ 52 by omega)]
    exact if_congr (by omega) rfl rfl

theorem userPage_number {v : U64} (user : v.toNat < 2 ^ 47) : pageNumber v < 2 ^ 35 := by
  unfold pageNumber
  omega

/-- A page of a user program changes nothing there. -/
theorem MapSound.userPage {page : PageDetails} (h : MapSound roots s) (room : MapRoom s)
    (step : MapStep s (.userPage page) s') : MapSound roots s' ∧ s'.kernelTask = s.kernelTask ∧
      ∀ f < 2 ^ 35, translate s'.mem (directPage f) = translate s.mem (directPage f) := by
  cases step with
  | @userPage _ m a user result =>
    obtain ⟨inMemory, ⟨-, rfl, -⟩ | ⟨accepted, -, -⟩⟩ := allocPage_cases result
    · exact ⟨h, rfl, fun _ _ => rfl⟩
    · obtain ⟨m₁, pt, result', ext, -, table⟩ :=
        allocPage_spec (n := 0) h.forest h.root (room.hasFree.mono (by decide)) inMemory accepted
      obtain ⟨rfl, -⟩ := Prod.mk.inj (Option.some.inj (result.symm.trans result'))
      have counted : Forest (countReference s.mem page) roots := countReference_forest h.forest
      have layout := (countReference_layout s.mem page).trans ext.layout
      have paging : (m₁.setEntry (pt, (leafIndex page.virtualAddress).val) (pageEntry page)).paging =
          s.mem.paging := layout.1
      have sound : MapSound roots
          ⟨m₁.setEntry (pt, (leafIndex page.virtualAddress).val) (pageEntry page), s.kernelTask⟩ := by
        refine ⟨setEntry_forest ext.forest h.root (pathOf_length _) table, ?_, ?_, h.base⟩
        · rw [paging]
          exact h.root
        · rw [paging]
          exact h.selected
      refine ⟨sound, rfl, fun f lt => ?_⟩
      have number := userPage_number user
      rw [sound.translate_eq, h.translate_eq, paging, found_setEntry ext.forest h.root table,
        pageNumber_directPage lt, if_neg (by omega),
        ext.found counted h.root (pathOf_length _).le h.root]
      unfold found Memory.wordAt Memory.tables
      rw [countReference_ram]

/-! ## Runs -/

/-- Every page of the kernel has a number of its own, so the last word on a direct page is that of the
call with its number. -/
structure MapLog (s : MapState) (cs : List MapCall) (s' : MapState) : Prop where
  later : ∀ number frame, .malloc number frame ∈ cs → s.kernelTask.pageCount.toNat < number
  mapped : ∀ number frame, .malloc number frame ∈ cs → number < 2 ^ 35 →
    translate s'.mem (directPage number) = some frame
  others : ∀ f < 2 ^ 35, (∀ frame, .malloc f frame ∉ cs) →
    translate s'.mem (directPage f) = translate s.mem (directPage f)

theorem mapLog_run (sound : MapSound roots s) (run : Run mapSystem s cs s') : MapLog s cs s' := by
  induction run with
  | nil => exact ⟨fun _ _ h => absurd h List.not_mem_nil, fun _ _ h => absurd h List.not_mem_nil,
      fun _ _ _ => rfl⟩
  | @cons s t u c cs step run ih =>
    obtain ⟨room, step⟩ := step
    cases c with
    | malloc number frame =>
      obtain ⟨sound', rfl, count, shown⟩ := sound.malloc room step
      have log := ih sound'
      have fresh (frame' : Nat) : .malloc (s.kernelTask.pageCount.toNat + 1) frame' ∉ cs := fun h => by
        have := log.later _ _ h
        omega
      refine ⟨fun n g h => ?_, fun n g h lt => ?_, fun f lt none => ?_⟩
      · obtain h | h := List.mem_cons.mp h
        · cases h
          omega
        · have := log.later n g h
          omega
      · obtain h | h := List.mem_cons.mp h
        · cases h
          rw [log.others _ lt fresh, shown _ lt, if_pos rfl]
        · exact log.mapped n g h lt
      · rw [log.others f lt fun g h => none g (List.mem_cons_of_mem _ h), shown f lt, if_neg]
        rintro rfl
        exact none frame List.mem_cons_self
    | userPage page =>
      obtain ⟨sound', task, shown⟩ := sound.userPage room step
      have log := ih sound'
      have inside {n g : Nat} (h : .malloc n g ∈ MapCall.userPage page :: cs) : .malloc n g ∈ cs :=
        (List.mem_cons.mp h).resolve_left (MapCall.noConfusion ·)
      refine ⟨fun n g h => ?_, fun n g h => log.mapped n g (inside h), fun f lt none => ?_⟩
      · rw [← task]
        exact log.later n g (inside h)
      · rw [log.others f lt fun g h => none g (List.mem_cons_of_mem _ h), shown f lt]

/-- In a run, the direct map of some frames is kept if and only if every page of the kernel that has
the number of one of them gets that frame. -/
theorem mapHolds_run (sound : MapSound roots s) (small : ∀ f ∈ F, f < 2 ^ 35) (holds : MapHolds F s)
    (run : Run mapSystem s cs s') :
    MapHolds F s' ↔ ∀ number frame, .malloc number frame ∈ cs → number ∈ F → frame = number := by
  have log := mapLog_run sound run
  constructor
  · intro kept number frame called inF
    have mapped := log.mapped number frame called (small number inF)
    exact Option.some.inj (mapped.symm.trans (kept number inF))
  · intro own f inF
    by_cases called : ∃ frame, .malloc f frame ∈ cs
    · obtain ⟨frame, called⟩ := called
      rw [log.mapped f frame called (small f inF), own f frame called inF]
    · rw [log.others f (small f inF) fun frame h => called ⟨frame, h⟩]
      exact holds f inF

/-! ## A frame that is in use

After boot a page table or a user program has got the frame that comes next. -/

def usedFrame : MapState where
  mem :=
    { smallTable with
      ram := (dropIdentityMap (bootMemory (Boot2.tablesAt (fun _ _ => 0) 0x61) (fun _ => ⟨0, 0⟩)
        (physOf 0x61))).ram
      physFrames := fun f => if f < 0x4022 then ⟨0, 0b101⟩ else ⟨0, 0⟩
      paging := ⟨physOf 0x61, physOf 0x61, physOf 0x61⟩ }
  kernelTask := smallRegions

theorem usedFrame_tables : Boot2.BootTables false usedFrame.mem.ram 0x61 :=
  drop_bootTables (m := bootMemory (Boot2.tablesAt (fun _ _ => 0) 0x61) (fun _ => ⟨0, 0⟩)
    (physOf 0x61)) (Boot2.tablesAt_boot (by decide) fun _ _ _ _ _ => rfl) (by decide)

theorem usedFrame_count : frameCount usedFrame.mem = 0x8000 :=
  (show frameCount smallTable = 0x8000 by decide)

theorem usedFrame_marked : usedFrame.mem.marked f = decide (f < 0x4022) := by
  unfold Memory.marked
  by_cases used : f < 0x4022
  · simp [usedFrame, used]
  · simp [usedFrame, used]

theorem usedFrame_sound : MapSound {0x61} usedFrame where
  forest := usedFrame_tables.forest (by decide)
    (fun f lt => by rw [usedFrame_marked, decide_eq_true (by omega)])
    (by rw [usedFrame_count]; decide) (by decide)
  root := frameOf_physOf (by decide)
  selected := rfl
  base := rfl

theorem usedFrame_hasFree : usedFrame.mem.HasFreeBelow 5 0x4027 := by
  have inj : Function.Injective (· + 0x4022) := fun _ _ => Nat.add_right_cancel
  refine ⟨(Finset.range 5).image (· + 0x4022), ?_, fun f hf => ?_⟩
  · rw [Finset.card_image_of_injective _ inj, Finset.card_range]
  · obtain ⟨i, lt, rfl⟩ := Finset.mem_image.mp hf
    have lt := Finset.mem_range.mp lt
    refine ⟨by omega, by rw [usedFrame_count]; omega, ?_⟩
    rw [usedFrame_marked]
    exact decide_eq_false (by omega)

theorem usedFrame_shown (lt : f < 0x7800) : translate usedFrame.mem (directPage f) = some f := by
  rw [usedFrame_sound.translate_eq,
    show frameOf usedFrame.mem.paging.pml4Physical = 0x61 from usedFrame_sound.root]
  refine usedFrame_tables.found (by decide) (by omega) ?_
  rintro ⟨video, -⟩
  omega

theorem usedFrame_room : MapRoom usedFrame where
  free := ⟨0x4027, usedFrame_hasFree, fun f lt _ => usedFrame_shown (by omega)⟩
  tables := by
    rintro t ⟨r, rfl, p, short, ht⟩
    rw [show frameOf usedFrame.mem.paging.cr3 = 0x61 from usedFrame_sound.root] at ht
    refine usedFrame_shown ?_
    obtain ⟨-, rfl⟩ | ⟨-, rfl⟩ | ⟨-, rfl⟩ | ⟨j, lt, -, rfl⟩ :=
      usedFrame_tables.paths (by decide) short ht <;> omega
  number := by decide

/-- The next page of the kernel hides that frame. -/
theorem mapHolds_run_used : MapHolds {0x4021} usedFrame ∧
    ∃ s', Run mapSystem usedFrame [.malloc 0x4021 0x4022] s' ∧ ¬ MapHolds {0x4021} s' := by
  have sound := usedFrame_sound
  have holds : MapHolds {0x4021} usedFrame := by
    rintro f rfl
    exact usedFrame_shown (by decide)
  have first : findNextFreePhysical usedFrame.mem = physOf 0x4022 :=
    findNextFreePhysical_first sound.forest.small
      ⟨by rw [usedFrame_count]; decide, by rw [usedFrame_marked]; decide⟩
      fun g lt => by rw [usedFrame_marked, decide_eq_true lt]
  obtain ⟨n, m, -, result, -⟩ := malloc_found (k := 0) (t := usedFrame.kernelTask) sound.forest
    sound.root (by decide) usedFrame_hasFree.hasFree.spare
  have step := MapStep.malloc result
  rw [first, frameOf_physOf (by decide)] at step
  have run : Run mapSystem usedFrame [.malloc 0x4021 0x4022] _ := .cons ⟨usedFrame_room, step⟩ (.nil _)
  refine ⟨holds, _, run, fun kept => ?_⟩
  have own := (mapHolds_run (F := {0x4021}) sound (by rintro f rfl; decide) holds run).mp kept
    0x4021 0x4022 List.mem_cons_self rfl
  exact absurd own (by decide)

end ChudOS
