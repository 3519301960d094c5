import ChudOS.Filesys.Directories

/-!
# Sibling lists

Entries may be rewritten under another parent, so that the directories no longer list their
children. What the calls need is less: from every directory in use the siblings lead through entries
in use to an end.

## Main definitions

* `ListWithin` — the siblings from an entry on are in use and come to an end.
* `Populated` — a file system whose directories have such lists.
* `Advanced` — what a call leaves as it was.
-/

namespace ChudOS.GemFS

open Volume LinkedChain Outcome

variable [SectorAccess]

/-- The list that starts at `i` ends, and its entries are among those up to `u`. -/
def ListWithin (ent : Nat → Entry) (u : Nat) (i : U64) : Prop :=
  ∃ c : List U64, (∀ j ∈ c, j.toNat ≤ u) ∧ Linked (sibling ent) 0 i c

structure Populated (s : Volume) (l : List U64) (n u : Nat) : Prop extends FileSystem s l n u where
  lists : ∀ d ≤ u, (rows s l d).isDirectory = true → ListWithin (rows s l) u (rows s l d).start

/-- A call leaves the entries in use in their blocks, and takes no block back. -/
structure Advanced (s : Volume) (l : List U64) (n u : Nat) (s' : Volume) (l' : List U64)
    (n' u' : Nat) : Prop extends Populated s' l' n' u' where
  stay : l.take (u + 1) <+: l'
  marks : n ≤ n'
  more : u ≤ u'
  faithful : Faithful s l → Faithful s' l'

variable {env : Env} {s s' s'' : Volume} {i : U64} {k m n n' n'' u u' u'' d p : Nat} {e : Entry}
  {l l' l'' : List U64} {ent ent' : Nat → Entry} {o : Option Nat} {args : CreateArgs}

namespace ListWithin

omit [SectorAccess] in
theorem nil : ListWithin ent u 0 := ⟨[], nofun, linked_nil.mpr rfl⟩

omit [SectorAccess] in
theorem congr (h : ListWithin ent u i) (le : u ≤ u')
    (same : ∀ k ≤ u, (ent' k).siblingIndex = (ent k).siblingIndex) : ListWithin ent' u' i := by
  obtain ⟨c, inside, links⟩ := h
  exact ⟨c, fun j hj => (inside j hj).trans le, links.congr fun j hj => same _ (inside j hj)⟩

omit [SectorAccess] in
/-- One entry, at which the list may end, gets siblings. -/
theorem extend (h : ListWithin ent u i) (le : u ≤ u') (small : u < 2 ^ 64) (hk : k ≤ u)
    (last : (ent k).siblingIndex = 0)
    (same : ∀ j ≤ u, j ≠ k → (ent' j).siblingIndex = (ent j).siblingIndex)
    (tail : ListWithin ent' u' (ent' k).siblingIndex) : ListWithin ent' u' i := by
  obtain ⟨c, inside, links⟩ := h
  obtain ⟨r, inside', links'⟩ := tail
  have at_k : (BitVec.ofNat 64 k).toNat = k := Nat.mod_eq_of_lt (by omega)
  obtain ⟨c', links'', from_c⟩ := @Linked.extend _ (sibling ent) (sibling ent') 0 i c r
    (BitVec.ofNat 64 k) links (by rw [sibling, at_k, last])
    (fun j hj ne => same _ (inside j hj) fun eq => ne (BitVec.eq_of_toNat_eq (eq.trans at_k.symm)))
    (by rwa [sibling, at_k])
  refine ⟨c', fun j hj => ?_, links''⟩
  rcases from_c j hj with old | new
  · exact (inside j old).trans le
  · exact inside' j new

end ListWithin

/-! ## A new entry -/

omit [SectorAccess] in
/-- The lists of the directories after a new entry was linked behind the entry in place `o`. -/
theorem lists_of_entryAfter (small : u + 1 < 2 ^ 64)
    (lists : ∀ d ≤ u, (ent d).isDirectory = true → ListWithin ent u (ent d).start)
    (last : ∀ k ∈ o, (ent k).siblingIndex = 0)
    (old : ∀ k ≤ u, ent' k = entryAfter (BitVec.ofNat 64 (u + 1)) p o k (ent k))
    (start : (ent' (u + 1)).start = 0) (single : (ent' (u + 1)).siblingIndex = 0)
    (hd : d ≤ u + 1) (dir : (ent' d).isDirectory = true) :
    ListWithin ent' (u + 1) (ent' d).start := by
  have here : (BitVec.ofNat 64 (u + 1)).toNat = u + 1 := Nat.mod_eq_of_lt small
  have new : ListWithin ent' (u + 1) (BitVec.ofNat 64 (u + 1)) := by
    refine ⟨[BitVec.ofNat 64 (u + 1)], fun j hj => ?_, linked_cons.mpr ⟨rfl, fun zero => ?_, ?_⟩⟩
    · rw [List.mem_singleton.mp hj, here]
    · rw [zero] at here
      simp at here
    · rw [sibling, here, single]
      exact linked_nil.mpr rfl
  rcases Nat.lt_or_ge u d with gt | le
  · obtain rfl : d = u + 1 := by omega
    rw [start]
    exact .nil
  rw [old d le, isDirectory_entryAfter] at dir
  rw [old d le, start_entryAfter]
  split_ifs
  · exact new
  by_cases linked : ∃ k ≤ u, k ≠ p ∧ o = some k
  · obtain ⟨k, hk, ne, rfl⟩ := linked
    refine (lists d le dir).extend (Nat.le_succ u) (by omega) hk (last k rfl) (fun j hj other => ?_) ?_
    · rw [old j hj, siblingIndex_entryAfter]
      exact fun _ eq => other (Option.some.inj eq).symm
    · rw [old k hk, entryAfter, if_neg ne, if_pos rfl]
      exact new
  · -- the parent itself ended its list: it is written back as it was
    refine (lists d le dir).congr (Nat.le_succ u) fun k hk => ?_
    rw [old k hk, siblingIndex_entryAfter]
    exact fun ne eq => linked ⟨k, hk, ne, eq⟩

theorem Made.advanced (h : Populated s l n u) (made : Made s l n u p o e s' l' n')
    (inUse : e.inUse = true) (start : e.start = 0) (single : e.siblingIndex = 0)
    (last : ∀ k ∈ o, (rows s l k).siblingIndex = 0) : Advanced s l n u s' l' n' (u + 1) where
  toFileSystem := made.fileSystem h.toFileSystem inUse
  lists d := by
    have length := made.length
    have short := made.disk.short
    refine lists_of_entryAfter (by omega) h.lists last (fun k => made.rows_old h.toFileSystem) ?_ ?_
    · rw [made.rows_new]
      exact start
    · rw [made.rows_new]
      exact single
  stay := by
    have whole : l.take (u + 1) <+: l.take (u + 2) := by
      rw [← Nat.min_eq_left (Nat.le_succ (u + 1)), ← List.take_take]
      exact List.take_prefix _ _
    exact whole.trans made.more
  marks := made.le
  more := Nat.le_succ u
  faithful := made.faithful

theorem Grown.advanced (h : Grown s l n s' l' n') (old : Populated s l n u) :
    Advanced s l n u s' l' n' u where
  toFileSystem := h.fileSystem old.toFileSystem
  lists d hd dir := by
    have used := old.used
    have row (k : Nat) (hk : k ≤ u) : rows s' l' k = rows s l k := h.rows_eq (by omega)
    rw [row d hd] at dir ⊢
    exact (old.lists d hd dir).congr (Nat.le_refl u) fun k hk => by rw [row k hk]
  stay := (List.take_prefix _ _).trans h.more
  marks := h.le
  more := Nat.le_refl u
  faithful := h.faithful

theorem Advanced.trans (h : Advanced s l n u s' l' n' u') (used : u < l.length)
    (h' : Advanced s' l' n' u' s'' l'' n'' u'') : Advanced s l n u s'' l'' n'' u'' where
  toPopulated := h'.toPopulated
  stay := by
    have more := h.more
    have eq := List.prefix_iff_eq_take.mp h.stay
    rw [List.length_take, Nat.min_eq_left used] at eq
    have whole : l'.take (u + 1) <+: l'.take (u' + 1) := by
      rw [← Nat.min_eq_left (show u + 1 ≤ u' + 1 by omega), ← List.take_take]
      exact List.take_prefix _ _
    rw [eq]
    exact whole.trans h'.stay
  marks := h.marks.trans h'.marks
  more := h.more.trans h'.more
  faithful faithful := h'.faithful (h.faithful faithful)

theorem mkdir_advanced (strict : env.findFreeBlock = findBlock) (fuel : 514 ≤ env.fuel)
    (h : Populated s l n u) (long : 1 < l.length) (low : p ≤ u)
    (hp : args.parentIndex = BitVec.ofNat 64 p) (dir : (rows s l p).isDirectory = true)
    (inUse : args.flags.getLsbD 0 = true) (name : args.nameLen.toNat ≤ 128) :
    Ends (OutOfBlocks n (u + 2 - l.length + 1))
      (fun r => r.2 = BitVec.ofNat 64 (u + 1) ∧ ∃ l' n', Advanced s l n u r.1 l' n' (u + 1) ∧ n < n' ∧
        rows r.1 l' (u + 1) = newDir args (BitVec.ofNat 64 (u + 1))) (mkdir env args s) := by
  obtain ⟨c, inside, links⟩ := h.lists p low dir
  have back : (c.map BitVec.toNat).map (BitVec.ofNat 64) = c := by
    simp [Function.comp_def]
  rw [← back] at links
  have made := mkdir_made strict fuel h.toFileSystem long low hp name (fun k hk => by
    obtain ⟨j, hj, rfl⟩ := List.mem_map.mp hk
    exact inside j hj) links
  refine made.imp ?_
  rintro r ⟨index, l', n', made, count, -⟩
  refine ⟨index, l', n', made.advanced h inUse rfl rfl fun k hk => ?_, by omega, made.rows_new⟩
  obtain ⟨init, eq⟩ := List.getLast?_eq_some_iff.mp hk
  rw [eq, List.map_append, List.map_singleton] at links
  have ended := links.next_last
  have mem : k ∈ c.map BitVec.toNat := by rw [eq]; simp
  obtain ⟨j, -, rfl⟩ := List.mem_map.mp mem
  rwa [sibling, BitVec.ofNat_toNat, BitVec.setWidth_eq] at ended

/-! ## A rewritten entry -/

/-- An entry in use is written with its own index, flags and links. Only a file may start
elsewhere. -/
theorem Populated.put_advanced (env : Env) (h : Populated s l n u) (low : k ≤ u) (hk : k < l.length)
    (index : e.index = (s.node l[k]).index) (flags : e.flags = (s.node l[k]).flags)
    (start : e.isDirectory = true → e.start = (s.node l[k]).start)
    (single : e.siblingIndex = (s.node l[k]).siblingIndex)
    (link : e.nextIndexStart = (s.node l[k]).nextIndexStart) :
    Advanced s l n u (putEntry env s (BitVec.ofNat 64 k) l[k] e) l n u := by
  have used := h.used
  have row (j : Nat) (hj : j < l.length) := rows_putEntry env e h.toDisk hk (h.root_ofNat hk) hj
  have before := rows_eq (s := s) hk
  have at_k : e.index.toNat = k := by
    rw [index]
    exact h.index_getElem hk
  refine ⟨⟨⟨h.put_keep_at env hk (h.root_ofNat hk) at_k link, used, fun j hj => ?_⟩,
    fun d hd dir => ?_⟩, List.take_prefix _ _, Nat.le_refl n, Nat.le_refl u, fun faithful => ?_⟩
  · rw [node_putEntry env e h.plain (h.root_ofNat hk)]
    split_ifs with eq
    · obtain rfl := h.nodup.getElem_inj_iff.mp eq
      rw [← h.inUse j hj, Entry.inUse, Entry.inUse, flags]
    · exact h.inUse j hj
  · have lists := h.lists d hd
    rw [row d (by omega)] at dir ⊢
    have same : ListWithin (rows s l) u (if d = k then e.unlinked else rows s l d).start := by
      split_ifs at dir ⊢ with eq
      · have kept : (rows s l d).isDirectory = true := by
          rw [eq, before, ← dir, Entry.isDirectory, Entry.isDirectory]
          exact congrArg (·.getLsbD 4) flags.symm
        have whole := lists kept
        have here : e.unlinked.start = (s.node l[k]).unlinked.start := start dir
        rw [eq, before] at whole
        rwa [here]
      · exact lists dir
    refine same.congr (Nat.le_refl u) fun j hj => ?_
    rw [row j (by omega)]
    split_ifs with eq
    · rw [eq, before]
      exact single
    · rfl
  · refine Faithful.put_at env h.toDisk hk (h.root_ofNat hk) at_k ?_ faithful
    rw [index]
    exact h.index_ofNat hk

theorem createFile_advanced {size : U64} (strict : env.findFreeBlock = findBlock)
    (fuel : 514 ≤ env.fuel) (h : Populated s l n u) (long : 1 < l.length) (low : p ≤ u)
    (hp : args.parentIndex = BitVec.ofNat 64 p) (dir : (rows s l p).isDirectory = true)
    (inUse : args.flags.getLsbD 0 = true) (file : args.flags.getLsbD 4 = false)
    (name : args.nameLen.toNat ≤ 128) :
    Ends (OutOfBlocks n (size.toNat + (u + 2 - l.length) + 1))
      (fun r => ∃ l' n', Advanced s l n u r.1 l' n' (u + 1) ∧ min capacity (n + size.toNat) < n')
      (createFile env args size s) := by
  refine createFile_ends strict fuel h.toFileSystem long (fun _ => id)
    fun t s₂ l₂ n₂ ranged grown stops => ?_
  have used := h.used
  have length := grown.length
  have le := grown.le
  have first := ranged.advanced h
  have second := grown.advanced first.toPopulated
  have made := mkdir_advanced strict fuel second.toPopulated (by omega) low hp
    (by rw [grown.rows_eq (by omega), ranged.rows_eq (by omega)]; exact dir) inUse name
  refine made.mono stops ?_
  rintro ⟨s₃, f⟩ ⟨-, l₃, n₃, third, more, new⟩
  have hk := third.used
  refine ⟨l₃, n₃, third.toDisk, hk, ?_⟩
  dsimp only at third new ⊢
  have flags : (s₃.node l₃[u + 1]).flags = args.flags := by
    rw [rows_eq hk] at new
    have := congrArg Entry.flags new
    exact this
  have isFile : (s₃.node l₃[u + 1]).isDirectory = false := by rw [Entry.isDirectory, flags, file]
  have fourth := third.put_advanced env (Nat.le_refl _) hk
    (e := { s₃.node l₃[u + 1] with start := BitVec.ofNat 64 n, size := size }) rfl rfl
    (fun isDir => absurd (isFile.symm.trans isDir) Bool.false_ne_true) rfl rfl
  have whole := (first.trans used second).trans used (third.trans second.used fourth)
  exact ⟨l₃, n₃, whole, by omega⟩

end ChudOS.GemFS
