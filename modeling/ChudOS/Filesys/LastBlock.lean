import ChudOS.Filesys.BitmapPrefix

/-!
# The block without a bit

The bit of block 511 is in the last byte of the bitmap, which the floppy driver loses. So the search
gives this block out again and again. One `GemFS_CreateFile` takes it for its file and has it marked
for the entry too, and the next one takes it for another file.
-/

namespace ChudOS.GemFS

open Volume LinkedChain Outcome Transition

variable [SectorAccess] {env : Env} {s t : Volume} {b : U64} {l : List U64} {n u p : Nat}
  {args : CreateArgs}

/-- A free entry is found where there is one. -/
theorem findFreeEntry_unused (kernel : env.findFreeBlock = findFreeBlock) (fuel : 514 ≤ env.fuel)
    (h : FileSystem s l n u) (room : u + 1 < l.length) :
    ∃ t, findFreeEntry env s = .ok (t, BitVec.ofNat 64 (u + 1)) ∧ Grown s l n t l n := by
  have le := h.le
  obtain ⟨⟨t, f⟩, eq, rfl, l', n', grown⟩ :=
    (@findFreeEntry_grows _ env.strict s n u l rfl fuel h (by omega)).ok_of fun c hc => by
      have := hc.2
      omega
  have length := grown.length
  have count := grown.count
  obtain rfl : l = l' := grown.more.eq_of_length (by omega)
  obtain rfl : n' = n := by omega
  exact ⟨t, (findFreeEntry_follows kernel s).ok eq, grown.toGrown⟩

section Again

variable (kernel : env.findFreeBlock = findFreeBlock) (fuel : 514 ≤ env.fuel)
  (search : ∀ t, Disk t l n → findFreeBlock t = .ok b) (again : b.toNat < n ∨ capacity ≤ b.toNat)
  (room : u + 1 < l.length) (low : p ≤ u) (hp : args.parentIndex = BitVec.ofNat 64 p)
  (name : args.nameLen.toNat ≤ 128)
include kernel fuel search again room low hp name

/-- `GemFS_mkdir` where the mark of the block that is found does not count. -/
theorem mkdir_again (h : Directory s l n u) (dir : (rows s l p).isDirectory = true) :
    ∃ s' o, mkdir env args s = .ok (s', BitVec.ofNat 64 (u + 1)) ∧
      Made s l n u p o (newDir args (BitVec.ofNat 64 (u + 1))) s' (l.take (u + 2)) n := by
  obtain ⟨t, eq, grown⟩ := findFreeEntry_unused kernel fuel h.toFileSystem room
  have marked := Grown.mark_again grown.disk b again
  have all := grown.trans marked
  have block : env.findFreeBlock t = .ok b := (congrFun kernel t).trans (search t grown.disk)
  have at_p : slot args.parentIndex = p := by
    rw [hp]
    exact slot_ofNat (by have := h.short; omega)
  have found : Found s l n u args.parentIndex (t.mark b) l n l[p] :=
    ⟨all, by omega, by rw [at_p]; exact List.getElem?_eq_getElem _⟩
  have row (k : Nat) (hk : k ≤ u) : rows (t.mark b) l k = rows s l k := all.rows_eq (by omega)
  have links := (h.tree.of_eq row).lists p low (by rw [row p low]; exact dir)
  have inside (c : Nat) (mem : c ∈ children (rows (t.mark b) l) u p) : c < l.length := by
    have := (mem_children.mp mem).2.1
    omega
  have register := registerSibling_of_linked (f := BitVec.ofNat 64 (u + 1)) all.disk fuel
    (by omega) inside links
  have ho (j : Nat) (hj : j ∈ (children (rows (t.mark b) l) u p).getLast?) : j < l.length :=
    inside j (List.mem_of_getLast? hj)
  obtain ⟨s', written, made⟩ := made_of_found env (by omega) h.toFileSystem rfl hp low found
    (.refl all.disk) ho room
  refine ⟨s', _, ?_, made⟩
  rw [hp] at written
  rw [mkdir, eq, ok_bind]
  dsimp only
  rw [block, ok_bind, fbbSetBlock_of_plain grown.disk.plain, ok_bind,
    all.disk.readEntry_eq (by omega) room, ok_bind, hp, all.disk.readEntry_eq (by omega) (by omega),
    ok_bind]
  dsimp only
  rw [register, ok_bind, copyName, if_pos name, ok_bind,
    (all.disk.relink ho).writeEntry_eq (by omega) room, ok_bind]
  exact congrArg (· >>= _) written

/-- `GemFS_CreateFile` where the marks of the blocks that are found do not count. -/
theorem createFile_again (h : Directory s l n u) (dir : (rows s l p).isDirectory = true) :
    ∃ s' e, createFile env args 1 s = .ok (s', BitVec.ofNat 64 (u + 1)) ∧
      Disk s' (l.take (u + 2)) n ∧ s'.Holds (BitVec.ofNat 64 (u + 1)) e ∧ e.flags = args.flags ∧
        e.start = b ∧ e.size = 1 := by
  have first := Grown.mark_again h.toDisk b again
  have reserved : setRange 1 b s = .ok (s.mark b) := by
    have only : BitVec.ofNat 64 0 + b = b := BitVec.zero_add b
    change fbbSetBlock s (BitVec.ofNat 64 0 + b) >>= _ = _
    rw [only, fbbSetBlock_of_plain h.plain]
    rfl
  obtain ⟨t, eq, grown⟩ := findFreeEntry_unused kernel fuel (first.fileSystem h.toFileSystem) room
  have all := first.trans grown
  have ht := all.directory h
  obtain ⟨v, o, run, made⟩ := mkdir_again kernel fuel search again room low hp name ht
    (by rw [all.rows_eq (by omega)]; exact dir)
  have length := made.length
  have hk : u + 1 < (l.take (u + 2)).length := by omega
  have entry := made.new hk
  have index : (v.node (l.take (u + 2))[u + 1]).index = BitVec.ofNat 64 (u + 1) :=
    congrArg Entry.index entry
  have small : (BitVec.ofNat 64 (u + 1)).toNat = u + 1 := Nat.mod_eq_of_lt (hk.trans made.disk.short)
  have root := made.disk.root_ofNat hk
  have disk := made.disk.put_keep_at env hk root
    (e := { v.node (l.take (u + 2))[u + 1] with start := b, size := 1 })
    ((congrArg BitVec.toNat index).trans small) rfl
  have flags : (v.node (l.take (u + 2))[u + 1]).flags = args.flags := congrArg Entry.flags entry
  refine ⟨_, { v.node (l.take (u + 2))[u + 1] with start := b, size := 1 }, ?_, disk, ?_, flags, rfl,
    rfl⟩
  · rw [createFile, kernel, search s h.toDisk, ok_bind, reserved, ok_bind, eq, ok_bind]
    dsimp only
    rw [run, ok_bind]
    dsimp only
    rw [made.disk.readEntry_eq (by omega) hk, ok_bind]
    dsimp only
    rw [made.disk.writeEntry_eq (by omega) hk]
    rfl
  · rw [disk.holds_iff]
    simp only [small]
    exact ⟨hk, (node_putEntry env _ made.disk.plain root _).trans (if_pos rfl)⟩

end Again

/-! ## A run up to the last block -/

/-- A file of 456 blocks, and the search for the entry after the next: all blocks below 511 are
marked, and one entry is free. -/
theorem exists_full (driver : capacity = 511) : ∃ s l p, ∃ args : CreateArgs, p ≤ 10 ∧
    Reachable (accesses plainEnv) (Permitted plainEnv) s ∧ Directory s l 511 10 ∧ l.length = 12 ∧
      (rows s l p).isDirectory = true ∧ args.parentIndex = BitVec.ofNat 64 p ∧
        args.nameLen.toNat ≤ 128 ∧ args.flags.getLsbD 0 = true := by
  obtain ⟨s, formatted⟩ := exists_formatted
  obtain ⟨args, allowed⟩ := exists_allowed formatted 456 (by decide)
  obtain ⟨l, stage⟩ := formatted.stage rfl plainEnv_fuel
  obtain ⟨t, l', n', run, added⟩ := stage.childAdded rfl plainEnv_fuel allowed
  have next := stage.creation added
  have count := added.count
  have length := stage.length
  have size : (Creation.createFile args 456).size.toNat = 456 := rfl
  rw [size, driver, length] at count
  obtain rfl : n' = 510 := by omega
  have look := @readEntry_grows _ plainEnv.strict t 510 l' rfl
    (Nat.le_trans (by decide) plainEnv_fuel) next.toDisk (by have := next.length; omega) 11
  have place : slot 11 = 11 := by decide
  rw [place] at look
  obtain ⟨⟨v, e⟩, eq, l'', n'', -, grown, -⟩ := look.ok_of fun c hc => by
    have := hc.2
    have := next.length
    omega
  have long := grown.length
  have more := grown.count
  have last := next.length
  obtain rfl : n'' = 511 := by omega
  have first : Reachable (accesses plainEnv) (Permitted plainEnv) t :=
    .step (l := Access.create (.createFile args 456)) (.init formatted) allowed
      (by change Access.run plainEnv _ s = _; rw [Access.run, run]; rfl)
  have second : Reachable (accesses plainEnv) (Permitted plainEnv) v := by
    refine .step (l := Access.readEntry 11) first ?_ ?_
    · exact fun stopped => by cases eq.symm.trans stopped
    · change Access.run plainEnv _ t = _
      rw [Access.run, (readEntry_follows rfl 11 t).ok eq]
      rfl
  obtain ⟨parent, holds, used, dir⟩ := allowed.parent
  have holds : s.Holds args.parentIndex parent := holds
  have low := (stage.inUse_of_holds holds).1
  refine ⟨v, l'', args.parentIndex.toNat, args, by omega, second, grown.directory next.toDirectory,
    by omega, ?_, ?_, allowed.name, allowed.inUse⟩
  · rw [grown.rows_eq (by omega), next.old _ low, ← stage.unlinked_of_holds holds]
    exact dir
  · rw [BitVec.ofNat_toNat, BitVec.setWidth_eq]

/-- The search when all blocks with a bit are marked. -/
theorem findFreeBlock_full (lossy : SectorAccess.lossless = false) (h : Disk s l 511) :
    findFreeBlock s = .ok 511 := by
  rw [findFreeBlock_of_filled h.plain h.filled h.le, if_neg (by rw [capacity, lossy]; decide),
    pastEnd, if_neg (by simp [lossy])]

theorem exists_again (lossy : SectorAccess.lossless = false) : ∃ s args s' i e,
    Reachable (accesses plainEnv) (Permitted plainEnv) s ∧
      (Access.create (.createFile args 1)).run plainEnv s = .ok s' ∧
        findFreeBlock s = .ok 511 ∧ s'.InUse i e ∧ e.start = 511 ∧ e.size = 1 ∧
          fbbGetBlock s' 511 = false ∧ findFreeBlock s' = .ok 511 := by
  have driver : capacity = 511 := by rw [capacity, lossy]; rfl
  obtain ⟨s, l, p, args, low, reached, h, length, dir, hp, name, inUse⟩ := exists_full driver
  obtain ⟨s', e, run, disk, holds, flags, start, size⟩ := createFile_again rfl plainEnv_fuel
    (fun t => findFreeBlock_full lossy) (.inr (by rw [driver]; decide)) (by omega) low hp name h dir
  have lost : fbbGetBlock s' 511 = false := by
    rw [fbbGetBlock_of_plain disk.plain, driver]
    rfl
  refine ⟨s, args, s', _, e, reached, ?_, findFreeBlock_full lossy h.toDisk, ⟨holds, ?_⟩, start, size,
    lost, findFreeBlock_full lossy disk⟩
  · rw [Access.run, Creation.run, run]
    rfl
  · rw [Entry.inUse, flags]
    exact inUse

omit [SectorAccess] in
/-- Block 511 of a file is the next free one. -/
theorem last_block_reserved_again : letI : SectorAccess := .driver
    ∃ s args s' i e, Reachable (accesses plainEnv) (Permitted plainEnv) s ∧
      (Access.create (.createFile args 1)).run plainEnv s = .ok s' ∧
        findFreeBlock s = .ok 511 ∧ s'.InUse i e ∧ e.start = 511 ∧ e.size = 1 ∧
          fbbGetBlock s' 511 = false ∧ findFreeBlock s' = .ok 511 :=
  @exists_again .driver rfl

end ChudOS.GemFS
