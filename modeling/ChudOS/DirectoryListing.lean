import ChudOS.Filesys.Listing
import ChudOS.Userland.FileCalls

/-!
# What `GETDENTS` lists

The call starts at the entry that has the number of the descriptor as its index, walks on to the
siblings of that entry, and copies out of the caller's array.
-/

namespace ChudOS.GemFS

open Volume LinkedChain Outcome

variable [SectorAccess]

/-- The call fills the array with the entries `cs`, as many as there is room for, and changes nothing
else. -/
def ListsEntries (env : Env) (descriptors : Nat → FileDescriptor) (rdx rcx rax : U64)
    (buffer : Nat → U8) (dent : Dent) (s : Volume) (cs : List U64) : Prop :=
  ∃ buffer', handleGetdents env descriptors rdx rcx rax buffer dent s =
      .ok (s, buffer', BitVec.ofNat 64 (min cs.length rcx.toNat)) ∧
    (∀ k (hk : k < cs.length), k < rcx.toNat →
      ∃ e, s.Holds cs[k] e ∧ dentOf e = .ok (dentAt buffer' k)) ∧
    ∀ a, 144 * min cs.length rcx.toNat ≤ a → buffer' a = buffer a

/-- `GETDENTS` lists the directory of its descriptor. -/
def ListsDirectory (env : Env) (descriptors : Nat → FileDescriptor) (rdx rcx rax : U64)
    (buffer : Nat → U8) (dent : Dent) (s : Volume) : Prop :=
  ∀ d cs, s.Holds (descriptors rdx.toNat).gemfsIndex d → d.isDirectory = true →
    SiblingChain s d.start cs → ListsEntries env descriptors rdx rcx rax buffer dent s cs

variable {env : Env} {descriptors : Nat → FileDescriptor} {rdx rcx rax i j : U64}
  {buffer buffer' : Nat → U8} {dent : Dent} {s s' : Volume} {l cs r : List U64} {d e : Entry}
  {k m n u : Nat}

/-- The call has no way to change the caller's array. -/
theorem handleGetdents_buffer
    (run : handleGetdents env descriptors rdx rcx rax buffer dent s = .ok (s', buffer', i)) :
    buffer' = buffer := by
  rw [handleGetdents] at run
  split_ifs at run
  · obtain ⟨⟨s₁, e⟩, -, rest⟩ := bind_eq_ok.mp run
    obtain ⟨⟨s₂, i', dent'⟩, -, done⟩ := bind_eq_ok.mp rest
    exact (Prod.mk.inj (Prod.mk.inj (Except.ok.inj done)).2).1.symm
  · exact (Prod.mk.inj (Prod.mk.inj (Except.ok.inj run)).2).1.symm

/-- The loop counts the siblings that are left. -/
theorem getdentsFrom_eq (h : Disk s l m) (fuel : 0 < env.fuel)
    (later : SiblingChain s e.siblingIndex r)
    (named : ∀ i ∈ r, ∀ e, s.Holds i e → ∃ x, dentOf e = .ok x) (enough : r.length < n)
    (le : k ≤ rcx.toNat) : ∃ dent', getdentsFrom env rcx buffer n k dent e s =
      .ok (s, BitVec.ofNat 64 (k + min r.length (rcx.toNat - k)), dent') := by
  induction n generalizing k dent e r with
  | zero => exact absurd enough (Nat.not_lt_zero _)
  | succ n ih =>
    rw [getdentsFrom]
    cases r with
    | nil =>
      rw [if_neg fun more => more.2 later]
      exact ⟨dent, by simp⟩
    | cons j r =>
      obtain ⟨eq, ne, e', holds, rest⟩ := later
      by_cases room : k < rcx.toNat
      · rw [if_pos ⟨room, eq ▸ ne⟩, eq, h.readEntry_holds fuel holds, ok_bind]
        dsimp only
        obtain ⟨x, hx⟩ := named j List.mem_cons_self e' holds
        obtain ⟨dent', run⟩ := @ih (dentAt buffer k) _ _ _ rest
          (fun i mem => named i (List.mem_cons_of_mem j mem)) (Nat.lt_of_succ_lt_succ enough)
          (Nat.succ_le_of_lt room)
        rw [hx, ok_bind, run]
        have count : k + 1 + min r.length (rcx.toNat - (k + 1)) =
            k + min (j :: r).length (rcx.toNat - k) := by
          rw [List.length_cons]
          omega
        exact ⟨dent', by rw [count]⟩
      · rw [if_neg fun more => room more.1]
        exact ⟨dent, by rw [Nat.sub_eq_zero_of_le (Nat.not_lt.mp room), Nat.min_zero, Nat.add_zero]⟩

/-! ## The siblings after an entry -/

omit [SectorAccess] in
theorem SiblingChain.after {q : List U64} (h : SiblingChain s i (q ++ j :: r)) (holds : s.Holds j e) :
    SiblingChain s e.siblingIndex r := by
  induction q generalizing i with
  | nil =>
    obtain ⟨-, -, e', holds', rest⟩ := h
    rwa [holds.unique holds']
  | cons k q ih =>
    obtain ⟨-, -, e', -, rest⟩ := h
    exact ih rest

namespace Stage

end Stage

/-! ## The call -/

/-- The entries of the directory are listed exactly when as many siblings follow the entry that has
the descriptor's number, up to the room there is, and the array held their records before. -/
theorem getdents_lists_iff (h : Disk s l m) (fuel : r.length < env.fuel)
    (used : (descriptors rdx.toNat).used = true)
    (opened : s.Holds (descriptors rdx.toNat).gemfsIndex d) (dir : d.isDirectory = true)
    (children : SiblingChain s d.start cs) (own : s.Holds rdx e)
    (later : SiblingChain s e.siblingIndex r)
    (named : ∀ i ∈ r, ∀ e, s.Holds i e → ∃ x, dentOf e = .ok x) :
    ListsDirectory env descriptors rdx rcx rax buffer dent s ↔
      min r.length rcx.toNat = min cs.length rcx.toNat ∧
        ∀ k (hk : k < cs.length), k < rcx.toNat →
          ∃ e, s.Holds cs[k] e ∧ dentOf e = .ok (dentAt buffer k) := by
  have pos : 0 < env.fuel := by omega
  obtain ⟨dent', loop⟩ := @getdentsFrom_eq _ env rcx buffer dent _ _ _ _ 0 _ _ h pos later
    named fuel (Nat.zero_le _)
  have run : handleGetdents env descriptors rdx rcx rax buffer dent s =
      .ok (s, buffer, BitVec.ofNat 64 (min r.length rcx.toNat)) := by
    rw [handleGetdents, if_pos used, h.readEntry_holds pos own, ok_bind]
    dsimp only
    rw [loop, ok_bind, Nat.zero_add, Nat.sub_zero]
    rfl
  have small := rcx.isLt
  constructor
  · intro lists
    obtain ⟨buffer', run', records, -⟩ := lists d cs opened dir children
    obtain rfl := handleGetdents_buffer run'
    have count := (Prod.mk.inj (Prod.mk.inj (Except.ok.inj (run.symm.trans run'))).2).2
    have count := congrArg BitVec.toNat count
    rw [BitVec.toNat_ofNat, BitVec.toNat_ofNat, Nat.mod_eq_of_lt (by omega),
      Nat.mod_eq_of_lt (by omega)] at count
    exact ⟨count, records⟩
  · rintro ⟨count, records⟩ d' cs' opened' - children'
    obtain rfl := opened.unique opened'
    obtain rfl := children.unique children'
    exact ⟨buffer, count ▸ run, records, fun _ _ => rfl⟩

/-! ## An array that holds the records -/

/-- Byte `i` of a dent, in a place of 144 bytes. -/
def dentByte (x : Dent) (i : Nat) : U8 :=
  if h : i < 128 then x.name ⟨i, h⟩
  else if i < 136 then byteOf x.nameLen (i - 128)
  else if i = 136 then x.flags
  else 0

omit [SectorAccess] in
theorem dentAt_eq {x : Dent} (h : ∀ i < 144, buffer (144 * k + i) = dentByte x i) :
    dentAt buffer k = x := by
  obtain ⟨name, nameLen, flags⟩ := x
  rw [dentAt, Dent.mk.injEq]
  refine ⟨funext fun i => ?_, field_eq nameLen.isLt fun j hj => ?_, ?_⟩
  · rw [h i (by omega), dentByte, dif_pos i.isLt]
  · rw [Nat.add_assoc, h _ (by omega)]
    grind [dentByte]
  · exact h 136 (by decide)

theorem Legible.dentOf_ok (h : Legible s l n u) (hk : k ≤ u) (holds : s.Holds (BitVec.ofNat 64 k) e) :
    ∃ x, dentOf e = .ok x := by
  have used := h.used
  have small : (BitVec.ofNat 64 k).toNat = k := Nat.mod_eq_of_lt (by have := h.short; omega)
  obtain ⟨at_k, here⟩ := h.holds_iff.mp holds
  have name : e.name = (rows s l k).name := by
    rw [rows_eq (by omega), ← here]
    simp only [small]
    rfl
  obtain ⟨i, zero⟩ := h.terminated k hk
  rw [← name] at zero
  obtain ⟨j, found⟩ := Option.isSome_iff_exists.mp (List.find?_isSome (p := fun i => e.name i = 0).mpr
    ⟨i, List.mem_finRange i, decide_eq_true zero⟩)
  exact ⟨_, by rw [dentOf, scanName, found]; rfl⟩

omit [SectorAccess] in
/-- The children of a directory of the formatter. -/
theorem children_formatted (row : ∀ k (hk : k < 10), rowOf (rows s l k) = formattedRows.get ⟨k, hk⟩) (d : Nat) :
    children (rows s l) 9 d =
      (List.range' 1 9).filter fun k => (formattedRows.getD k ⟨[], 0, false⟩).parent = d := by
  refine List.filter_congr fun k mem => ?_
  have low : k < 10 := by have := List.mem_range'_1.mp mem; omega
  have same : (rows s l k).parentIndex.toNat = (formattedRows.get ⟨k, low⟩).parent :=
    congrArg Row.parent (row k low)
  have place : formattedRows.getD k ⟨[], 0, false⟩ = formattedRows.get ⟨k, low⟩ :=
    List.getD_eq_getElem _ _ low
  rw [same, place]

/-- The directory `dev` and what is in it, and the siblings of the shell, which are as many. -/
theorem exists_listed : ∃ s l d e buffer, Disk s l 52 ∧ Formatted plainEnv s ∧ s.Holds 1 d ∧
    d.isDirectory = true ∧ SiblingChain s d.start [2, 3] ∧ s.Holds 6 e ∧
      SiblingChain s e.siblingIndex [7, 8] ∧
        (∀ i ∈ [(7 : U64), 8], ∀ e, s.Holds i e → ∃ x, dentOf e = .ok x) ∧
          ∀ k (hk : k < [(2 : U64), 3].length), ∃ e, s.Holds [2, 3][k] e ∧
            dentOf e = .ok (dentAt buffer k) := by
  obtain ⟨s, formatted⟩ := exists_formatted
  obtain ⟨l, stage, legible, row⟩ := formatted.rows rfl plainEnv_fuel
  have holds (k : Nat) (hk : k ≤ 9) : ∃ e, s.Holds (BitVec.ofNat 64 k) e ∧
      e.unlinked = rows s l k := by
    obtain ⟨e, holds, -, same⟩ := stage.holds_ofNat hk
    exact ⟨e, holds, same⟩
  have dir (k : Nat) (hk : k < 10) (e : Entry) (same : e.unlinked = rows s l k) :
      e.isDirectory = (formattedRows.get ⟨k, hk⟩).isDirectory :=
    (congrArg Entry.isDirectory same).trans (congrArg Row.isDirectory (row k hk))
  obtain ⟨dev, holds₁, same₁⟩ := holds 1 (by decide)
  obtain ⟨bin, holds₅, same₅⟩ := holds 5 (by decide)
  obtain ⟨shell, holds₆, -⟩ := holds 6 (by decide)
  obtain ⟨zero, holds₂, -⟩ := holds 2 (by decide)
  obtain ⟨urand, holds₃, -⟩ := holds 3 (by decide)
  obtain ⟨x, hx⟩ := legible.dentOf_ok (by decide) holds₂
  obtain ⟨y, hy⟩ := legible.dentOf_ok (by decide) holds₃
  have isDev : dev.isDirectory = true := dir 1 (by decide) dev same₁
  have inDev := stage.siblingChain holds₁ isDev
  have inBin := stage.siblingChain holds₅ (dir 5 (by decide) bin same₅)
  rw [children_formatted row] at inDev inBin
  have later : SiblingChain s shell.siblingIndex [7, 8] := SiblingChain.after (q := []) inBin holds₆
  refine ⟨s, l, dev, shell, fun a => dentByte (if a < 144 then x else y) (a % 144), stage.toDisk, formatted,
    holds₁, isDev, inDev, holds₆, later, ?_, ?_⟩
  · rintro i (_ | ⟨_, _ | ⟨_, ⟨⟩⟩⟩) e at_i
    · exact legible.dentOf_ok (k := 7) (by decide) at_i
    · exact legible.dentOf_ok (k := 8) (by decide) at_i
  · rintro (_ | _ | k) hk
    · refine ⟨zero, holds₂, hx.trans (congrArg _ (dentAt_eq fun i hi => ?_).symm)⟩
      rw [if_pos (by omega)]
      congr 1
      omega
    · refine ⟨urand, holds₃, hy.trans (congrArg _ (dentAt_eq fun i hi => ?_).symm)⟩
      rw [if_neg (by omega)]
      congr 1
      omega
    · exact absurd hk (by simp)

omit [SectorAccess] in
/-- Descriptor 6 on the directory `dev`, and an array that holds its two records. -/
theorem getdents_lists_held : letI : SectorAccess := .driver
    ∃ s descriptors buffer, Formatted plainEnv s ∧
      ListsDirectory plainEnv descriptors 6 2 0 buffer ⟨fun _ => 0, 0, 0⟩ s := by
  obtain ⟨s, l, d, e, buffer, disk, formatted, opened, dir, children, own, later, named, records⟩ :=
    @exists_listed .driver
  refine ⟨s, fun _ => ⟨1, 0, 0, true⟩, buffer, formatted, ?_⟩
  exact (@getdents_lists_iff .driver _ _ 6 2 0 buffer _ s l [2, 3] [7, 8] d e 52
    disk (by decide) rfl opened dir children own later named).mpr
      ⟨rfl, fun k hk _ => records k hk⟩

theorem exists_unlisted : ∃ s descriptors, (∃ l, Stage s l 52 9) ∧
    ¬ ListsDirectory plainEnv descriptors 9 1 0 (fun _ => 0) ⟨fun _ => 0, 0, 0⟩ s := by
  obtain ⟨s, formatted⟩ := exists_formatted
  obtain ⟨l, stage⟩ := formatted.stage rfl plainEnv_fuel
  obtain ⟨lt, dir⟩ := stage.tree.parent 9 (by decide) (Nat.le_refl 9)
  obtain ⟨d, opened, -, same⟩ := stage.holds_ofNat (Nat.le_of_lt lt)
  have dir : d.isDirectory = true := by rw [← same] at dir; exact dir
  refine ⟨s, fun _ => ⟨BitVec.ofNat 64 (rows s l 9).parentIndex.toNat, 0, 0, true⟩, ⟨l, stage⟩, ?_⟩
  intro lists
  obtain ⟨buffer', run, records, -⟩ := lists d _ opened dir (stage.siblingChain opened dir)
  obtain rfl := handleGetdents_buffer run
  have small := stage.toNat_ofNat (Nat.le_of_lt lt)
  have some : 0 < ((children (rows s l) 9 (rows s l 9).parentIndex.toNat).map (BitVec.ofNat 64)).length := by
    rw [List.length_map]
    exact List.length_pos_of_mem (mem_children.mpr ⟨by decide, Nat.le_refl 9, rfl⟩)
  rw [small] at records
  obtain ⟨e, holds, record⟩ := records 0 some (by decide)
  obtain ⟨x, -, eq⟩ := bind_eq_ok.mp record
  have flags := congrArg Dent.flags (Except.ok.inj eq)
  have inUse := (stage.inUse_of_holds holds).2
  rw [Entry.inUse, show e.flags = 0 from flags] at inUse
  cases inUse

omit [SectorAccess] in
/-- With room for one record an array of zeros stays one, although the directory has an entry. -/
theorem getdents_lists_no_child : letI : SectorAccess := .driver
    ∃ s descriptors, (∃ l, Stage s l 52 9) ∧
      ¬ ListsDirectory plainEnv descriptors 9 1 0 (fun _ => 0) ⟨fun _ => 0, 0, 0⟩ s :=
  @exists_unlisted .driver

end ChudOS.GemFS
