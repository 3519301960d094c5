import ChudOS.ForkRights
import ChudOS.LowLevel.SharedFrames

/-!
# Sharing a page and copying it

What one round of the copy loops of `fork` does to the user pages of all address spaces, and what the
handler of a copy-on-write fault does: the child's page comes to show the parent's frame, and the
page written to its own frame, with what it showed before.

## Main definitions

* `EntryShared` — an entry of the parent is written for the child.
* `PageShared`, `PagesShared` — the pages of the child show what those of the parent show.
* `ShareReady` — what the copy loops need for that.
-/

namespace ChudOS

open Memory

variable {m m' m'' m₀ : Memory} {roots : Set Nat} {root parent child pt f n : Nat} {v e a : U64}
  {x : Nat × Page}

/-! ## Entries -/

theorem pteFrame_and (a b : U64) : pteFrame (a &&& b) = pteFrame a &&& pteFrame b := by
  simp only [pteFrame_eq, BitVec.toNat_and, Nat.and_div_two_pow, Nat.and_mod_two_pow]

/-- An entry that agrees in the present bit and the address. -/
theorem link_congr {e e' : U64} (present : e'.getLsbD 0 = e.getLsbD 0)
    (frame : pteFrame e' = pteFrame e) : link e' = link e := by
  by_cases on : e.getLsbD 0 = true
  · rw [link_isSome_of_present on, link_isSome_of_present (present.trans on), frame]
  · have off : e.getLsbD 0 = false := by simpa using on
    rw [link_eq_none.mpr (absent_iff.mpr off), link_eq_none.mpr (absent_iff.mpr (present.trans off))]

theorem link_shared (e : U64) : link ((e ||| cowBit) &&& ~~~2) = link e := by
  apply link_congr (shared_bits e).1
  have mark : pteFrame cowBit = 0 := by decide
  have mask : pteFrame (~~~2) = 2 ^ 40 - 1 := by decide
  rw [pteFrame_and, pteFrame_or, mark, mask, Nat.or_zero, Nat.and_two_pow_sub_one_eq_mod,
    Nat.mod_eq_of_lt (pteFrame_lt e)]

theorem link_sharedPage (v e : U64) : link (pageEntry (sharedPage v e)) = link e := by
  apply link_congr (sharedPage_bits e).1
  have low : (((e &&& 0xFFF).setWidth 16 : U16).setWidth 64 : U64).toNat < 0x1000 := by
    have mask : (e &&& 0xFFF).toNat ≤ 0xFFF := by
      rw [BitVec.toNat_and]
      exact Nat.and_le_right
    rw [BitVec.toNat_setWidth, BitVec.toNat_setWidth]
    omega
  rw [pageEntry, pteFrame_or, pteFrame_or, pteFrame_executeDisable]
  show pteFrame (pteAddr e) ||| pteFrame (((e &&& 0xFFF).setWidth 16 : U16).setWidth 64) ||| 0 = _
  rw [pteFrame_flags low, pteAddr_eq, pteFrame_physOf (pteFrame_lt e), Nat.or_zero, Nat.or_zero]

/-! ## The parent's side -/

/-- The parent's page stays where it is, and cannot be written any more. -/
theorem shareEntry_pages (h : PagesSound m roots) (hroot : frameOf m.paging.pml4Physical ∈ roots)
    (user : UserPath (pathOf v)) (enough : m.HasFree (n + 3)) :
    ∃ m₁ e, shareEntry m v = (m₁, e) ∧ PagesSound m₁ roots ∧ SamePages roots m m₁ ∧
      m₁.HasFree n ∧ (∀ f, (m₁.physFrames f).refcount = (m.physFrames f).refcount) ∧
      (∀ f, m.marked f = true → (m₁.physFrames f).flags = (m.physFrames f).flags) ∧
      m₁.wordAt (frameOf m.paging.pml4Physical) (pathOf v) (leafIndex v) = some e ∧
      e.getLsbD 1 = false := by
  obtain ⟨m₁, pt, walk, keeps, free, table⟩ := walk_rights h.forest hroot enough v
  obtain ⟨old, hold⟩ : ∃ e, m₁.tables pt (leafIndex v) = e := ⟨_, rfl⟩
  have entry : m₁.entry (pt, (leafIndex v).val) = old := hold
  obtain ⟨sound₁, same₁⟩ := h.keepsUser keeps
  obtain ⟨m₂, hm₂⟩ : ∃ m₂, m₁.setEntry (pt, (leafIndex v).val) ((old ||| cowBit) &&& ~~~2) = m₂ :=
    ⟨_, rfl⟩
  have word₂ : m₂.wordAt (frameOf m.paging.pml4Physical) (pathOf v) (leafIndex v) =
      some ((old ||| cowBit) &&& ~~~2) := by
    rw [← hm₂]
    exact setEntry_word keeps.forest hroot (pathOf_length v) table
  have frame₂ (x : Nat × Page) : m₂.userFrame roots x = m₁.userFrame roots x := by
    rw [← hm₂, setEntry_userFrame keeps.forest hroot table user]
    split_ifs with here
    · rw [here, userFrame_of_place ⟨hroot, user⟩, Memory.wordAt_eq, table, Option.map_some,
        Option.bind_some, hold, link_shared]
    · rfl
  have tables₂ (t : Nat) : IsTable m₂ roots t ↔ IsTable m₁ roots t := by
    rw [← hm₂]
    exact setEntry_isTable keeps.forest.trees hroot (pathOf_length v) table
  have sound₂ : PagesSound m₂ roots := by
    refine ⟨?_, ?_, fun x f hx => ?_⟩
    · rw [← hm₂]
      exact setEntry_forest keeps.forest hroot (pathOf_length v) table
    · apply sound₁.sound.restrict frame₂
      · intro x may
        change m₂.userWritable roots x at may
        rw [← hm₂] at may
        obtain ⟨-, -, locked⟩ | ⟨-, old⟩ := setEntry_userWritable keeps.forest hroot table user may
        · rw [(shared_bits old).2.1] at locked
          cases locked
        · exact .inl old
      · intro f
        rw [← hm₂]
        exact le_refl _
    · rw [frame₂] at hx
      rw [tables₂, ← hm₂]
      exact sound₁.data x f hx
  have same₂ : SamePages roots m₁ m₂ := by
    refine ⟨frame₂, fun x f hx => ?_⟩
    rw [← hm₂]
    exact setEntry_contents hroot table (sound₁.data x f hx).2
  refine ⟨m₂, (old ||| cowBit) &&& ~~~2, ?_, sound₂, same₁.trans same₂, ?_, ?_, ?_, word₂,
    (shared_bits old).2.1⟩
  · unfold shareEntry
    rw [walk]
    dsimp only
    rw [entry, hm₂, ← hm₂]
    simp [Memory.entry, Memory.setEntry]
  · rw [← hm₂]
    exact free
  · intro f
    rw [← hm₂]
    exact keeps.refcount f
  · intro f hf
    rw [← hm₂]
    obtain same | ⟨unused, -⟩ := keeps.flags f
    · exact same
    · exact absurd hf unused.not_marked

/-! ## The child's side -/

/-- The page `page` of the child shows what that of the parent shows; nothing else on the user pages
has changed. Counts have grown by at most one. -/
structure PageShared (roots : Set Nat) (parent child : Nat) (page : Page) (m m' : Memory) : Prop where
  sound : PagesSound m' roots
  frame : ∀ x, m'.userFrame roots x =
    if x = (child, page) then m.userFrame roots (parent, page) else m.userFrame roots x
  contents : ∀ x f, m.userFrame roots x = some f → m'.tables f = m.tables f
  grown : ∀ f, (m.physFrames f).refcount.toNat ≤ (m'.physFrames f).refcount.toNat
  bounded : ∀ f, (m'.physFrames f).refcount.toNat ≤ (m.physFrames f).refcount.toNat + 1
  flags : ∀ f, m.marked f = true → (m.physFrames f).refcount ≠ 0 →
    (m'.physFrames f).flags = (m.physFrames f).flags

/-- The frame is counted, and `alloc_page` gives it to user programs. -/
structure MayShare (m : Memory) (f : Nat) : Prop where
  counted : (m.physFrames f).refcount ≠ 0
  userOwned : (m.physFrames f).flags &&& 0b110 = 0

theorem MayShare.accepted {page : PageDetails} (h : MayShare m (frameOf page.physicalAddress)) :
    allocRefused m page = false := by
  have bits : ∀ x : U8, x &&& 0b110 = 0 → (x &&& 0b10 == 0b10) = false ∧
      (x &&& 0b100 == 0b100) = false := by decide
  obtain ⟨clean, user⟩ := bits _ h.userOwned
  unfold allocRefused
  dsimp only
  rw [clean, user]
  rfl

theorem countReference_refcount (room : (m.physFrames f).refcount.toNat + 1 < 2 ^ 32)
    (page : PageDetails) : ((countReference m page).physFrames f).refcount.toNat =
      if page.virtualAddress < virtualMemoryBarrier ∧ f = frameOf page.physicalAddress then
        (m.physFrames f).refcount.toNat + 1
      else (m.physFrames f).refcount.toNat := by
  rw [countReference_physFrames]
  by_cases here : page.virtualAddress < virtualMemoryBarrier ∧ f = frameOf page.physicalAddress
  · rw [if_pos here, if_pos here]
    show ((m.physFrames f).refcount + 1).toNat = _
    rw [BitVec.toNat_add]
    exact Nat.mod_eq_of_lt room
  · rw [if_neg here, if_neg here]

/-- The child's page shows the frame of the entry `e` and cannot be written; one more reference to
that frame is counted. -/
structure EntryShared (roots : Set Nat) (child : Nat) (page : Page) (e : U64) (m m' : Memory) :
    Prop where
  forest : Forest m' roots
  frame : ∀ x, m'.userFrame roots x = if x = (child, page) then link e else m.userFrame roots x
  writable : ∀ x, m'.userWritable roots x → x ≠ (child, page) ∧ m.userWritable roots x
  refcount : ∀ f, (m'.physFrames f).refcount.toNat =
    if f = pteFrame e then (m.physFrames f).refcount.toNat + 1 else (m.physFrames f).refcount.toNat
  kept : ∀ f, m.marked f = true → ¬IsTable m roots f →
    m'.marked f = true ∧ ¬IsTable m' roots f ∧ m'.tables f = m.tables f
  flags : ∀ f, m.marked f = true → (m.physFrames f).refcount ≠ 0 →
    (m'.physFrames f).flags = (m.physFrames f).flags

theorem EntryShared.grown {page : Page} (s : EntryShared roots child page e m m') (f : Nat) :
    (m.physFrames f).refcount.toNat ≤ (m'.physFrames f).refcount.toNat := by
  rw [s.refcount]
  split_ifs <;> omega

theorem allocPage_entryShared (forest : Forest m roots)
    (childRoot : frameOf m.paging.pml4Physical = child) (childIn : child ∈ roots)
    (user : UserPath (pathOf v)) (enough : m.HasFree (n + 4)) (locked : e.getLsbD 1 = false)
    (room : ∀ f, (m.physFrames f).refcount.toNat + 1 < 2 ^ 32)
    (inMemory : (sharedPage v e).physicalAddress < m.totalMem)
    (accepted : allocRefused m (sharedPage v e) = false)
    (alloc : allocPage m (sharedPage v e) = some (m', a)) :
    EntryShared roots child (pageOf v) e m m' ∧ m'.HasFree n := by
  have low : v < virtualMemoryBarrier := by
    by_contra high
    exact kernelPath_of_le (BitVec.not_lt.mp high) user
  have target : frameOf (sharedPage v e).physicalAddress = pteFrame e := rfl
  have hroot : frameOf m.paging.pml4Physical ∈ roots := childRoot ▸ childIn
  obtain ⟨m₁, pt, result, ext, free, table⟩ := allocPage_spec forest hroot enough inMemory accepted
  rw [alloc] at result
  rw [childRoot] at table ext
  change m₁.tableAt child (pathOf v) = some pt at table
  obtain ⟨m₂, hm₂⟩ : ∃ m₂, countReference m (sharedPage v e) = m₂ := ⟨_, rfl⟩
  rw [hm₂] at ext
  have forest₂ : Forest m₂ roots := hm₂ ▸ countReference_forest forest
  have tables₂ : m₂.tables = m.tables := by
    rw [← hm₂]
    unfold Memory.tables
    rw [countReference_ram]
  have marked₂ {f : Nat} (hf : m.marked f = true) : m₂.marked f = true :=
    hm₂ ▸ countReference_marked hf
  have isTable₂ {f : Nat} (hf : ¬IsTable m roots f) : ¬IsTable m₂ roots f := by
    rwa [isTable_of_tables fun t _ => congrFun tables₂ t]
  have keeps : KeepsUser roots m₂ m₁ := .of_extends forest₂ childIn (pathOf_length _).le ext
  have words (x : Nat × Page) : m₁.userFrame roots x = m.userFrame roots x ∧
      (m₁.userWritable roots x → m.userWritable roots x) := by
    apply userFrame_of_words
    intro r hr p hp j
    have word := keeps.word r hr p hp j
    rwa [wordAt_of_tables (fun t _ => congrFun tables₂ t) hr hp.1.le] at word
  have stays {f : Nat} (hf : m.marked f = true) (data : ¬IsTable m roots f) :
      ¬IsTable m₁ roots f := by
    intro hft
    obtain old | unused := keeps.fresh f hft
    · exact isTable₂ data old
    · exact unused.not_marked (marked₂ hf)
  obtain ⟨m₃, hm₃⟩ : ∃ m₃, m₁.setEntry (pt, (leafIndex v).val) (pageEntry (sharedPage v e)) = m₃ :=
    ⟨_, rfl⟩
  obtain rfl : m' = m₃ := by
    rw [← hm₃]
    exact congrArg Prod.fst (Option.some.inj result)
  refine ⟨⟨?_, fun x => ?_, fun x may => ?_, fun f => ?_, fun f hf data => ?_,
    fun f hf counted => ?_⟩, ?_⟩
  · rw [← hm₃]
    exact setEntry_forest ext.forest childIn (pathOf_length v) table
  · rw [← hm₃, ← (words x).1, ← link_sharedPage v e]
    exact setEntry_userFrame ext.forest childIn table user
  · rw [← hm₃] at may
    obtain ⟨-, -, on⟩ | ⟨other, may⟩ := setEntry_userWritable ext.forest childIn table user may
    · rw [(sharedPage_bits e).2.1, locked] at on
      cases on
    · exact ⟨other, (words x).2 may⟩
  · have counted := countReference_refcount (room f) (sharedPage v e)
    have same : (m'.physFrames f).refcount = (m₂.physFrames f).refcount := by
      rw [← hm₃]
      exact keeps.refcount f
    rw [target] at counted
    rw [same, ← hm₂, counted]
    exact if_congr (and_iff_right low) rfl rfl
  · rw [← hm₃, setEntry_isTable ext.forest.trees childIn (pathOf_length v) table,
      setEntry_contents childIn table (stays hf data), ← tables₂]
    exact ⟨keeps.marked (marked₂ hf), stays hf data, funext (keeps.data f (marked₂ hf) (isTable₂ data))⟩
  · have same : (m'.physFrames f).flags = (m₁.physFrames f).flags := by rw [← hm₃]; rfl
    obtain old | ⟨unused, -⟩ := keeps.flags f
    · rw [same, old, ← hm₂, countReference_physFrames, if_neg counted]
      split_ifs <;> rfl
    · exact absurd (marked₂ hf) unused.not_marked
  · rw [← hm₃]
    exact free

/-- A page that shows nothing is given to nobody, and one that shows a frame is shared. -/
theorem EntryShared.pageShared (s : EntryShared roots child (pageOf v) e m m') (h : PagesSound m roots)
    (word : m.wordAt parent (pathOf v) (leafIndex v) = some e) (locked : e.getLsbD 1 = false)
    (sharable : ∀ f, link e = some f → MayShare m f)
    (source : m.userFrame roots (parent, pageOf v) = link e)
    (before : m.userFrame roots (child, pageOf v) = none ∨
      m.userFrame roots (child, pageOf v) = m.userFrame roots (parent, pageOf v)) :
    PageShared roots parent child (pageOf v) m m' := by
  have frame (x : Nat × Page) : m'.userFrame roots x =
      if x = (child, pageOf v) then m.userFrame roots (parent, pageOf v)
      else m.userFrame roots x := by
    rw [source]
    exact s.frame x
  have writable (x : Nat × Page) (may : m'.userWritable roots x) :
      x ≠ (parent, pageOf v) ∧ x ≠ (child, pageOf v) ∧ m.userWritable roots x := by
    obtain ⟨other, old⟩ := s.writable x may
    refine ⟨?_, other, old⟩
    rintro rfl
    have on := old.2
    change Writable (m.wordAt parent (pathOf v) (leafIndex v)) at on
    rw [word, writable_some, locked] at on
    exact Bool.false_ne_true on.2
  have shownBefore (x : Nat × Page) (f : Nat) (hx : m'.userFrame roots x = some f) :
      ∃ y, m.userFrame roots y = some f := by
    rw [frame] at hx
    split_ifs at hx
    · exact ⟨_, hx⟩
    · exact ⟨_, hx⟩
  refine ⟨⟨s.forest, ?_, fun x f hx => ?_⟩, frame, fun x f hx => ?_, s.grown, fun f => ?_, s.flags⟩
  · cases shown : link e with
    | none =>
      refine h.sound.restrict (fun x => ?_) (fun x may => .inl (writable x may).2.2) s.grown
      show m'.userFrame roots x = m.userFrame roots x
      rw [frame]
      split_ifs with here
      · rw [source, shown] at before ⊢
        rw [here]
        exact (before.elim id id).symm
      · rfl
    | some f =>
      have frameAt : pteFrame e = f := (link_eq_some.mp shown).2
      have counted : (m.physFrames f).refcount.toNat ≠ 0 := fun zero =>
        (sharable f shown).counted (BitVec.eq_of_toNat_eq zero)
      refine h.sound.share (x := (parent, pageOf v)) (y := (child, pageOf v)) (source.trans shown)
        counted (fun x => ?_) writable ?_ s.grown
      · rw [← shown, ← source]
        exact frame x
      · show (m.physFrames f).refcount.toNat + 1 ≤ (m'.physFrames f).refcount.toNat
        rw [s.refcount, if_pos frameAt.symm]
  · obtain ⟨y, hy⟩ := shownBefore x f hx
    obtain ⟨used, data⟩ := h.data y f hy
    obtain ⟨marked, table, -⟩ := s.kept f used data
    exact ⟨marked, table⟩
  · obtain ⟨used, data⟩ := h.data x f hx
    exact (s.kept f used data).2.2
  · rw [s.refcount]
    split_ifs <;> omega

theorem allocPage_shared (h : PagesSound m roots)
    (childRoot : frameOf m.paging.pml4Physical = child) (childIn : child ∈ roots)
    (parentIn : parent ∈ roots) (user : UserPath (pathOf v)) (enough : m.HasFree (n + 4))
    (word : m.wordAt parent (pathOf v) (leafIndex v) = some e) (locked : e.getLsbD 1 = false)
    (sharable : ∀ f, m.userFrame roots (parent, pageOf v) = some f → MayShare m f)
    (room : ∀ f, (m.physFrames f).refcount.toNat + 1 < 2 ^ 32)
    (before : m.userFrame roots (child, pageOf v) = none ∨
      m.userFrame roots (child, pageOf v) = m.userFrame roots (parent, pageOf v))
    (alloc : allocPage m (sharedPage v e) = some (m', a)) :
    PageShared roots parent child (pageOf v) m m' ∧ m'.HasFree n := by
  have source : m.userFrame roots (parent, pageOf v) = link e := by
    rw [userFrame_of_place ⟨parentIn, user⟩]
    exact (congrArg (·.bind link) word).trans rfl
  have sharable (f : Nat) (shown : link e = some f) : MayShare m f := sharable f (source.trans shown)
  obtain ⟨inMemory, ⟨refused, rfl, -⟩ | ⟨accepted, -, -⟩⟩ := allocPage_cases alloc
  · -- Only a page that is not present can be refused.
    have absent : link e = none := by
      cases shown : link e with
      | none => rfl
      | some f =>
        have may := sharable f shown
        rw [← (link_eq_some.mp shown).2] at may
        have accepted : allocRefused m' (sharedPage v e) = false := MayShare.accepted may
        rw [accepted] at refused
        cases refused
    refine ⟨⟨h, fun x => ?_, fun _ _ _ => rfl, fun _ => le_refl _, fun _ => Nat.le_succ _,
      fun _ _ _ => rfl⟩, enough.mono (by omega)⟩
    split_ifs with here
    · rw [source, absent] at before ⊢
      rw [here]
      exact before.elim id id
    · rfl
  · obtain ⟨entry, free⟩ := allocPage_entryShared h.forest childRoot childIn user enough locked room
      inMemory accepted alloc
    exact ⟨entry.pageShared h word locked sharable source before, free⟩

/-! ## The copy loops -/

/-- The pages `pages` of the child show what those of the parent show. -/
structure PagesShared (roots : Set Nat) (parent child : Nat) (pages : List Page) (m m' : Memory) :
    Prop where
  sound : PagesSound m' roots
  frame : ∀ x, m'.userFrame roots x =
    if x.1 = child ∧ x.2 ∈ pages then m.userFrame roots (parent, x.2) else m.userFrame roots x
  contents : ∀ x f, m.userFrame roots x = some f → m'.tables f = m.tables f
  grown : ∀ f, (m.physFrames f).refcount.toNat ≤ (m'.physFrames f).refcount.toNat
  bounded : ∀ f, (m'.physFrames f).refcount.toNat ≤ (m.physFrames f).refcount.toNat + pages.length
  flags : ∀ f, m.marked f = true → (m.physFrames f).refcount ≠ 0 →
    (m'.physFrames f).flags = (m.physFrames f).flags

/-- What the copy loops need to share the pages at the addresses `vs`: they are user pages, their
frames are counted, and no count is about to overflow. -/
structure ShareReady (roots : Set Nat) (parent child : Nat) (vs : List U64) (m : Memory) : Prop where
  sound : PagesSound m roots
  user : ∀ v ∈ vs, UserPath (pathOf v)
  sharable : ∀ v ∈ vs, ∀ f, m.userFrame roots (parent, pageOf v) = some f → MayShare m f
  room : ∀ f, (m.physFrames f).refcount.toNat + vs.length < 2 ^ 32
  inherited : ∀ p, m.userFrame roots (child, p) = none ∨
    m.userFrame roots (child, p) = m.userFrame roots (parent, p)

theorem refcount_ne_zero (h : (m.physFrames f).refcount ≠ 0)
    (grown : (m.physFrames f).refcount.toNat ≤ (m'.physFrames f).refcount.toNat) :
    (m'.physFrames f).refcount ≠ 0 := by
  intro zero
  have none : (m'.physFrames f).refcount.toNat = 0 := congrArg BitVec.toNat zero
  apply h
  apply BitVec.eq_of_toNat_eq
  show (m.physFrames f).refcount.toNat = 0
  omega

/-- The pages in front can be shared first. -/
theorem ShareReady.left {vs ws : List U64} (ready : ShareReady roots parent child (vs ++ ws) m) :
    ShareReady roots parent child vs m where
  sound := ready.sound
  user v hv := ready.user v (List.mem_append_left ws hv)
  sharable v hv := ready.sharable v (List.mem_append_left ws hv)
  room f := by
    have room := ready.room f
    rw [List.length_append] at room
    omega
  inherited := ready.inherited

section Loop

variable {k k' : Kernel} {vs ws : List U64} {ps qs : List Page} (apart : parent ≠ child)

include apart

theorem PagesShared.source (h : PagesShared roots parent child ps m m') (p : Page) :
    m'.userFrame roots (parent, p) = m.userFrame roots (parent, p) := by
  rw [h.frame, if_neg fun here => apart here.1]

/-- What is left to share can still be shared. -/
theorem ShareReady.next (ready : ShareReady roots parent child (vs ++ ws) m)
    (h : PagesShared roots parent child (vs.map pageOf) m m') :
    ShareReady roots parent child ws m' where
  sound := h.sound
  user v hv := ready.user v (List.mem_append_right vs hv)
  sharable v hv f hf := by
    rw [h.source apart] at hf
    obtain ⟨counted, userOwned⟩ := ready.sharable v (List.mem_append_right vs hv) f hf
    refine ⟨refcount_ne_zero counted (h.grown f), ?_⟩
    rw [h.flags f (ready.sound.data _ f hf).1 counted]
    exact userOwned
  room f := by
    have bound := h.bounded f
    have room := ready.room f
    rw [List.length_map] at bound
    rw [List.length_append] at room
    omega
  inherited p := by
    rw [h.source apart, h.frame]
    split_ifs
    · exact .inr rfl
    · exact ready.inherited p

theorem PagesShared.trans (ready : ShareReady roots parent child vs m)
    (h : PagesShared roots parent child ps m m') (g : PagesShared roots parent child qs m' m'') :
    PagesShared roots parent child (ps ++ qs) m m'' where
  sound := g.sound
  frame x := by
    rw [g.frame, h.source apart, h.frame]
    by_cases own : x.1 = child
    · by_cases first : x.2 ∈ ps
      · simp [own, first]
      · simp [own, first]
    · simp [own]
  contents x f hx := by
    have shown : ∃ y, m'.userFrame roots y = some f := by
      by_cases here : x.1 = child ∧ x.2 ∈ ps
      · refine ⟨(parent, x.2), ?_⟩
        rw [h.source apart]
        have inherited := ready.inherited x.2
        rw [← here.1] at inherited
        obtain none | same := inherited
        · exact absurd (hx.symm.trans none) (by simp)
        · exact same.symm.trans hx
      · refine ⟨x, ?_⟩
        rw [h.frame, if_neg here]
        exact hx
    obtain ⟨y, hy⟩ := shown
    exact (g.contents y f hy).trans (h.contents x f hx)
  grown f := (h.grown f).trans (g.grown f)
  bounded f := by
    have first := h.bounded f
    have second := g.bounded f
    rw [List.length_append]
    omega
  flags f hf counted := by
    have same := h.flags f hf counted
    have marked : m'.marked f = true := by rwa [Memory.marked, same]
    exact (g.flags f marked (refcount_ne_zero counted (h.grown f))).trans same

variable {cur slot frames : Nat} (hparent : k.root cur = parent) (hchild : k.root slot = child)
  (parentIn : parent ∈ roots) (childIn : child ∈ roots)

include hparent hchild parentIn childIn

omit apart in
/-- One page is shared. -/
theorem forkPage_shared (ready : ShareReady roots parent child [v] k.mem)
    (enough : k.mem.HasFree (n + 7)) (h : forkPage k cur slot v = some k') :
    PagesShared roots parent child [pageOf v] k.mem k'.mem ∧ k'.mem.HasFree n := by
  subst hparent hchild
  simp only [forkPage, Option.bind_eq_bind, Option.bind_eq_some_iff, Prod.exists] at h
  obtain ⟨m', b, alloc, h⟩ := h
  cases h
  have user := ready.user v (by simp)
  have entered : PagesSound (k.enter cur).mem roots :=
    ⟨ready.sound.forest.of_frames rfl rfl ready.sound.forest.marked, ready.sound.sound,
      ready.sound.data⟩
  obtain ⟨m₁, e, shared, sound₁, same₁, free₁, refcount₁, flags₁, word₁, locked⟩ :=
    shareEntry_pages (n := n + 4) entered parentIn user enough
  rw [shared] at alloc
  change PagesSound m₁ roots at sound₁
  have sound₂ : PagesSound (Kernel.enter { k.enter cur with mem := m₁ } slot).mem roots :=
    ⟨sound₁.forest.of_frames rfl rfl sound₁.forest.marked, sound₁.sound, sound₁.data⟩
  have frame₁ (x : Nat × Page) : m₁.userFrame roots x = k.mem.userFrame roots x := same₁.frame x
  have refcount (f : Nat) : (m₁.physFrames f).refcount = (k.mem.physFrames f).refcount := refcount₁ f
  have flags (f : Nat) (hf : k.mem.marked f = true) :
      (m₁.physFrames f).flags = (k.mem.physFrames f).flags := flags₁ f hf
  have sharable (f : Nat) (hf : m₁.userFrame roots (k.root cur, pageOf v) = some f) :
      MayShare (Kernel.enter { k.enter cur with mem := m₁ } slot).mem f := by
    rw [frame₁] at hf
    obtain ⟨counted, userOwned⟩ := ready.sharable v (by simp) f hf
    constructor
    · show (m₁.physFrames f).refcount ≠ 0
      rw [refcount]
      exact counted
    · show (m₁.physFrames f).flags &&& 0b110 = 0
      rw [flags f (ready.sound.data _ f hf).1]
      exact userOwned
  have room (f : Nat) : (m₁.physFrames f).refcount.toNat + 1 < 2 ^ 32 := by
    rw [refcount]
    exact ready.room f
  have before : m₁.userFrame roots (k.root slot, pageOf v) = none ∨
      m₁.userFrame roots (k.root slot, pageOf v) = m₁.userFrame roots (k.root cur, pageOf v) := by
    rw [frame₁, frame₁]
    exact ready.inherited (pageOf v)
  obtain ⟨page, free⟩ := allocPage_shared (n := n) sound₂ rfl childIn parentIn user free₁ word₁
    locked sharable room before alloc
  have frame (x : Nat × Page) : m'.userFrame roots x = if x = (k.root slot, pageOf v) then
      m₁.userFrame roots (k.root cur, pageOf v) else m₁.userFrame roots x := page.frame x
  refine ⟨⟨page.sound, fun x => ?_, fun x f hx => ?_, fun f => ?_, fun f => ?_,
    fun f hf counted => ?_⟩, free⟩
  · show m'.userFrame roots x = _
    rw [frame, frame₁, frame₁]
    obtain ⟨r, p⟩ := x
    by_cases here : r = k.root slot ∧ p = pageOf v
    · obtain ⟨rfl, rfl⟩ := here
      simp
    · rw [if_neg fun eq => here (Prod.mk.inj eq), if_neg]
      simpa using here
  · have first : m₁.tables f = k.mem.tables f := same₁.contents x f hx
    have second : m'.tables f = m₁.tables f := page.contents x f ((frame₁ x).trans hx)
    exact second.trans first
  · have grown : (m₁.physFrames f).refcount.toNat ≤ (m'.physFrames f).refcount.toNat := page.grown f
    rwa [refcount] at grown
  · have bounded : (m'.physFrames f).refcount.toNat ≤ (m₁.physFrames f).refcount.toNat + 1 :=
      page.bounded f
    rwa [refcount] at bounded
  · have first := flags f hf
    have marked : m₁.marked f = true := by rwa [Memory.marked, first]
    have counted₁ : (m₁.physFrames f).refcount ≠ 0 := by rwa [refcount]
    have second : (m'.physFrames f).flags = (m₁.physFrames f).flags := page.flags f marked counted₁
    exact second.trans first

theorem forkPages_shared {step : U64} (ready : ShareReady roots parent child (loopPages step a n) k.mem)
    (enough : k.mem.HasFree (7 * n + frames)) (h : forkPages k cur slot step a n = some k') :
    PagesShared roots parent child ((loopPages step a n).map pageOf) k.mem k'.mem ∧
      k'.mem.HasFree frames := by
  induction n generalizing k a with
  | zero =>
    cases h
    rw [Nat.mul_zero, Nat.zero_add] at enough
    refine ⟨⟨ready.sound, fun x => ?_, fun _ _ _ => rfl, fun _ => le_refl _, fun _ => le_refl _,
      fun _ _ _ => rfl⟩, enough⟩
    rw [loopPages, List.map_nil, if_neg fun here => List.not_mem_nil here.2]
  | succ n ih =>
    simp only [forkPages, Option.bind_eq_bind, Option.bind_eq_some_iff] at h
    obtain ⟨k₁, h₁, h⟩ := h
    have tasks := forkPage_tasks h₁
    have root (t : Nat) : k₁.root t = k.root t := by rw [Kernel.root, tasks]; rfl
    have split : loopPages step a (n + 1) = [a] ++ loopPages step (a + step) n := rfl
    rw [split] at ready ⊢
    rw [show 7 * (n + 1) + frames = 7 * n + frames + 7 by omega] at enough
    obtain ⟨page, free₁⟩ := forkPage_shared hparent hchild parentIn childIn ready.left enough h₁
    obtain ⟨rest, free⟩ := ih ((root cur).trans hparent) ((root slot).trans hchild)
      (ready.next apart page) free₁ h
    rw [List.map_append]
    exact ⟨page.trans apart ready rest, free⟩

/-- Both regions are shared. -/
theorem shareRegions_shared {d : TaskMemoryDefinition}
    (regions : (k.taskManager cur).memoryData = d)
    (ready : ShareReady roots parent child (sharedPages d) k.mem)
    (enough : k.mem.HasFree (7 * (d.pageCount.toNat + d.stackPageCount.toNat) + frames))
    (h : shareRegions k cur slot = some k') :
    PagesShared roots parent child ((sharedPages d).map pageOf) k.mem k'.mem ∧
      k'.mem.HasFree frames := by
  simp only [shareRegions, regions, Option.bind_eq_bind, Option.bind_eq_some_iff] at h
  obtain ⟨k₁, h₁, h⟩ := h
  have tasks := forkPages_tasks h₁
  have root (t : Nat) : k₁.root t = k.root t := by rw [Kernel.root, tasks]; rfl
  rw [Nat.mul_add, Nat.add_assoc] at enough
  obtain ⟨first, free₁⟩ :=
    forkPages_shared apart hparent hchild parentIn childIn ready.left enough h₁
  obtain ⟨second, free⟩ := forkPages_shared apart ((root cur).trans hparent)
    ((root slot).trans hchild) parentIn childIn (ready.next apart first) free₁ h
  rw [sharedPages, List.map_append]
  exact ⟨first.trans apart ready second, free⟩

end Loop

/-! ## Copy-on-write -/

theorem link_cowResolved_same (h : link e = some f) : link (cowResolved e (pteAddr e)) = some f := by
  obtain ⟨-, rfl⟩ := link_eq_some.mp h
  rw [pteAddr_eq]
  exact link_cowResolved (pteFrame_lt e)

theorem cowResolved_writable (e a : U64) : (cowResolved e a).getLsbD 1 = true := by
  simp [cowResolved]

section Resolve

variable (h : PagesSound m roots) (hroot : root ∈ roots)
  (hpt : m.tableAt root (pathOf v) = some pt) (user : UserPath (pathOf v))
  (shown : link (m.tables pt (leafIndex v)) = some f)

include h hroot hpt user shown

omit h in
theorem shown_userFrame : m.userFrame roots (root, pageOf v) = some f := by
  rw [userFrame_of_place ⟨hroot, user⟩]
  show (m.wordAt root (pathOf v) (leafIndex v)).bind link = some f
  rw [Memory.wordAt_eq, hpt, Option.map_some, Option.bind_some, shown]

/-- With a count of at most one the frame is the page's own. -/
theorem resolveCoW_own (few : (m.physFrames f).refcount ≤ 1)
    (res : resolveCoW m (pt, (leafIndex v).val) v = some m') :
    PagesSound m' roots ∧ m'.userPages roots = m.userPages roots ∧
      m'.userWritable roots (root, pageOf v) := by
  have here := shown_userFrame hroot hpt user shown
  obtain ⟨e, he⟩ : ∃ e, m.tables pt (leafIndex v) = e := ⟨_, rfl⟩
  rw [he] at shown
  have entry : m.entry (pt, (leafIndex v).val) = e := he
  have frameIs : pteFrame e = f := (link_eq_some.mp shown).2
  unfold resolveCoW at res
  dsimp only at res
  rw [entry, frameIs, if_pos few] at res
  obtain rfl := Option.some.inj res
  have frame (x : Nat × Page) : (m.setEntry (pt, (leafIndex v).val)
      (cowResolved e (pteAddr e))).userFrame roots x = m.userFrame roots x := by
    rw [setEntry_userFrame h.forest hroot hpt user, link_cowResolved_same shown]
    split_ifs with at_x
    · rw [at_x]
      exact here.symm
    · rfl
  refine ⟨⟨setEntry_forest h.forest hroot (pathOf_length v) hpt, ?_, fun x g hx => ?_⟩, ?_, ?_⟩
  · apply h.sound.restrict frame
    · intro x may
      obtain ⟨at_x, -⟩ | ⟨-, old⟩ := setEntry_userWritable h.forest hroot hpt user may
      · right
        refine ⟨f, ?_, BitVec.le_def.mp few⟩
        rw [at_x]
        exact here
      · exact .inl old
    · exact fun _ => le_refl _
  · rw [frame] at hx
    rw [setEntry_isTable h.forest.trees hroot (pathOf_length v) hpt]
    exact h.data x g hx
  · apply FrameSharing.Sharing.view_congr frame
    exact fun x g hx => setEntry_contents hroot hpt (h.data x g hx).2
  · refine ⟨⟨hroot, user⟩, ?_⟩
    show Writable ((m.setEntry (pt, (leafIndex v).val) _).wordAt root (pathOf v) (leafIndex v))
    rw [setEntry_word h.forest hroot (pathOf_length v) hpt, writable_some]
    exact ⟨(cowResolved_bits _ _).1, cowResolved_writable _ _⟩

/-- What the copying branch leaves: the entry names a frame that was free, with the contents of the
old one, whose count is one less. -/
theorem resolveCoW_copied (many : ¬(m.physFrames f).refcount ≤ 1)
    (selected : frameOf m.paging.cr3 = root) (free : m.HasFree 1)
    (res : resolveCoW m (pt, (leafIndex v).val) v = some m') :
    ∃ n, m.Free n ∧ m'.totalMem = m.totalMem ∧
      m'.ram = Function.update (m.setEntry (pt, (leafIndex v).val)
        (cowResolved (m.tables pt (leafIndex v)) (physOf n))).ram n (m.ram f) ∧
      (∀ g, (m'.physFrames g).refcount =
        if g = f then (m.physFrames f).refcount - 1 else (m.physFrames g).refcount) ∧
      ∀ g, m.marked g = true ∨ g = n → m'.marked g = true := by
  have notTable := (h.data _ _ (shown_userFrame hroot hpt user shown)).2
  obtain ⟨e, he⟩ : ∃ e, m.tables pt (leafIndex v) = e := ⟨_, rfl⟩
  rw [he] at shown ⊢
  have entry : m.entry (pt, (leafIndex v).val) = e := he
  have frameIs : pteFrame e = f := (link_eq_some.mp shown).2
  have hm := h.forest
  unfold resolveCoW at res
  dsimp only at res
  rw [entry, frameIs, if_neg many] at res
  obtain ⟨m₁, hm₁⟩ : ∃ m₁, giveUpShare m (pt, (leafIndex v).val) = m₁ := ⟨_, rfl⟩
  have ram₁ : m₁.ram = (m.setEntry (pt, (leafIndex v).val) (cowResolved e (pteAddr e))).ram := by
    rw [← hm₁, giveUpShare, entry]
    rfl
  have layout₁ : m₁.paging = m.paging ∧ m₁.totalMem = m.totalMem := hm₁ ▸ ⟨rfl, rfl⟩
  have marked₁ (g : Nat) : m₁.marked g = m.marked g := by
    rw [Memory.marked, ← hm₁, giveUpShare_frames]
    rfl
  have count₁ : frameCount m₁ = frameCount m := by rw [frameCount, layout₁.2]; rfl
  have free₁ : m₁.HasFree 1 := by
    obtain ⟨s, hs, all⟩ := free
    exact ⟨s, hs, fun g hg => ⟨count₁ ▸ (all g hg).1, (marked₁ g).trans (all g hg).2⟩⟩
  obtain ⟨unused, found⟩ := findNextFreePhysical_free (layout₁.2 ▸ hm.small) free₁
  obtain ⟨n, hn⟩ : ∃ n, frameOf (findNextFreePhysical m₁) = n := ⟨_, rfl⟩
  rw [hn] at unused found
  have freeFrame : m.Free n := ⟨count₁ ▸ unused.1, (marked₁ n).symm.trans unused.2⟩
  have bound := hm.free_lt freeFrame
  have word {m₂ : Memory} {x : U64} (hx : m₂.ram = (m.setEntry (pt, (leafIndex v).val) x).ram)
      (cr3 : m₂.paging = m.paging) : translate m₂ v = link x := by
    have written := setEntry_word (d := leafIndex v) (x := x) hm hroot (pathOf_length v) hpt
    rw [translate_eq, cr3, selected]
    unfold Memory.wordAt Memory.tables at written ⊢
    rw [hx, written, Option.bind_some]
  rw [hm₁] at res
  simp only [copyPage, Option.bind_eq_bind, Option.bind_eq_some_iff] at res
  obtain ⟨src, source, dst, target, res⟩ := res
  rw [word ram₁ layout₁.1, link_cowResolved_same shown] at source
  obtain rfl := Option.some.inj source
  obtain ⟨m₂, hm₂⟩ : ∃ m₂, mapFresh m₁ (pt, (leafIndex v).val) e = m₂ := ⟨_, rfl⟩
  rw [hm₂] at target res
  have ram₂ : m₂.ram = (m.setEntry (pt, (leafIndex v).val) (cowResolved e (physOf n))).ram := by
    rw [← hm₂, mapFresh, found]
    show (m₁.setEntry _ _).ram = _
    simp only [Memory.setEntry, ram₁, Function.update_idem, Function.update_self]
  have paging₂ : m₂.paging = m.paging := by rw [← hm₂]; exact layout₁.1
  rw [word ram₂ paging₂, link_cowResolved (by omega)] at target
  obtain rfl := Option.some.inj target
  obtain rfl := Option.some.inj res
  refine ⟨n, freeFrame, ?_, ?_, fun g => ?_, fun g hg => ?_⟩
  · rw [← layout₁.2, ← hm₂]
    rfl
  · have apart : f ≠ pt := by
      rintro rfl
      exact notTable ⟨root, hroot, pathOf v, (pathOf_length v).le, hpt⟩
    have source : m₁.ram f = m.ram f := by
      rw [ram₁]
      exact Function.update_of_ne apart _ _
    show Function.update m₂.ram n (m₁.ram f) = _
    rw [ram₂, source]
  · have same : (m₂.physFrames g).refcount = (m₁.physFrames g).refcount := by
      rw [← hm₂]
      simp only [mapFresh, memSetBit, setFlags_physFrames]
      split_ifs with at_g
      · rw [at_g]
        rfl
      · rfl
    show (m₂.physFrames g).refcount = _
    rw [same, ← hm₁]
    simp only [giveUpShare, entry, frameIs, Memory.setEntry, Memory.setFrame, Function.update_apply]
    split_ifs <;> rfl
  · have used : ∀ x : U8, (x ||| 1) &&& 0b111 ≠ 0 := by decide
    show m₂.marked g = true
    rw [← hm₂]
    apply setFlags_marked (m := m₁) (used _)
    rw [marked₁, hn]
    exact hg

/-- With a greater count the page gets a copy. -/
theorem resolveCoW_copy (many : ¬(m.physFrames f).refcount ≤ 1)
    (selected : frameOf m.paging.cr3 = root) (free : m.HasFree 1)
    (res : resolveCoW m (pt, (leafIndex v).val) v = some m') :
    PagesSound m' roots ∧ m'.userPages roots = m.userPages roots ∧
      m'.userWritable roots (root, pageOf v) := by
  have here := shown_userFrame hroot hpt user shown
  obtain ⟨n, unused, total, ram, refcount, marks⟩ :=
    resolveCoW_copied h hroot hpt user shown many selected free res
  obtain ⟨e, he⟩ : ∃ e, m.tables pt (leafIndex v) = e := ⟨_, rfl⟩
  rw [he] at ram
  have bound := h.forest.free_lt unused
  obtain ⟨m₃, hm₃⟩ : ∃ m₃, m.setEntry (pt, (leafIndex v).val) (cowResolved e (physOf n)) = m₃ :=
    ⟨_, rfl⟩
  rw [hm₃] at ram
  have forest₃ : Forest m₃ roots := hm₃ ▸ setEntry_forest h.forest hroot (pathOf_length v) hpt
  have isTable₃ (t : Nat) : IsTable m₃ roots t ↔ IsTable m roots t := by
    rw [← hm₃]
    exact setEntry_isTable h.forest.trees hroot (pathOf_length v) hpt
  have others {g : Nat} (ne : g ≠ n) : m'.tables g = m₃.tables g := by
    unfold Memory.tables
    rw [ram, Function.update_of_ne ne]
  have tables (t : Nat) (ht : IsTable m₃ roots t) : m'.tables t = m₃.tables t :=
    others (h.forest.ne_free unused ((isTable₃ t).mp ht))
  obtain ⟨frames, writables⟩ := userFrame_of_tables tables
  have frame (x : Nat × Page) : m'.userFrame roots x =
      if x = (root, pageOf v) then some n else m.userFrame roots x := by
    rw [frames, ← hm₃, ← link_cowResolved (e := e) (n := n) (by omega)]
    exact setEntry_userFrame h.forest hroot hpt user
  have writable (x : Nat × Page) (may : m'.userWritable roots x) (ne : x ≠ (root, pageOf v)) :
      m.userWritable roots x := by
    rw [writables, ← hm₃] at may
    obtain ⟨at_x, -⟩ | ⟨-, old⟩ := setEntry_userWritable h.forest hroot hpt user may
    · exact absurd at_x ne
    · exact old
  have fresh (x : Nat × Page) : m.userFrame roots x ≠ some n := by
    intro hx
    exact unused.not_marked (h.data x n hx).1
  have count : 1 < (m.physFrames f).refcount.toNat := by
    rw [BitVec.le_def] at many
    exact Nat.lt_of_not_le many
  have contents (x : Nat × Page) (g : Nat) (hx : m.userFrame roots x = some g) :
      m'.tables g = m.tables g := by
    have ne : g ≠ n := by
      rintro rfl
      exact fresh x hx
    rw [others ne, ← hm₃]
    exact setEntry_contents hroot hpt (h.data x g hx).2
  refine ⟨⟨?_, ?_, fun x g hx => ?_⟩, ?_, ?_⟩
  · apply forest₃.of_tables tables
    · rw [total, ← hm₃]
      rfl
    · intro t ht
      exact marks t (.inl (h.forest.marked t ((isTable₃ t).mp ht)))
  · apply h.sound.leave here count fresh frame writable
    · show (m.physFrames f).refcount.toNat ≤ (m'.physFrames f).refcount.toNat + 1
      have one : (1 : U32).toNat = 1 := rfl
      rw [refcount, if_pos rfl, BitVec.toNat_sub, one]
      have := (m.physFrames f).refcount.isLt
      omega
    · intro g ne
      show (m.physFrames g).refcount.toNat ≤ (m'.physFrames g).refcount.toNat
      rw [refcount, if_neg ne]
  · rw [isTable_of_tables tables, isTable₃]
    rw [frame] at hx
    split_ifs at hx with at_x
    · obtain rfl := Option.some.inj hx
      exact ⟨marks n (.inr rfl), fun ht => h.forest.ne_free unused ht rfl⟩
    · obtain ⟨used, data⟩ := h.data x g hx
      exact ⟨marks g (.inl used), data⟩
  · apply FrameSharing.Sharing.view_leave here frame _ contents
    unfold Memory.tables
    rw [ram, Function.update_self]
  · rw [writables, ← hm₃]
    refine ⟨⟨hroot, user⟩, ?_⟩
    show Writable ((m.setEntry (pt, (leafIndex v).val) _).wordAt root (pathOf v) (leafIndex v))
    rw [setEntry_word h.forest hroot (pathOf_length v) hpt, writable_some]
    exact ⟨(cowResolved_bits _ _).1, cowResolved_writable _ _⟩

/-- Resolving a copy-on-write fault is not seen on any page, and the page may be written. -/
theorem resolveCoW_pages (selected : frameOf m.paging.cr3 = root) (free : m.HasFree 1)
    (res : resolveCoW m (pt, (leafIndex v).val) v = some m') :
    PagesSound m' roots ∧ m'.userPages roots = m.userPages roots ∧
      m'.userWritable roots (root, pageOf v) := by
  by_cases few : (m.physFrames f).refcount ≤ 1
  · exact resolveCoW_own h hroot hpt user shown few res
  · exact resolveCoW_copy h hroot hpt user shown few selected free res

end Resolve

end ChudOS
