import ChudOS.Filesys.Tree

/-!
# Directories on the disk

The calls that create entries, on a disk whose entries form a directory tree and with a directory in
use as the parent: the entries on the disk change as those of the abstract directory do.

## Main definitions

* `rows` — the entries on the disk, by index.
* `Directory` — a file system whose entries form a tree.
-/

namespace ChudOS.GemFS

open Volume LinkedChain Outcome

variable [SectorAccess]

/-- The entries on the disk, but for their links in the chain. -/
def rows (s : Volume) (l : List U64) (k : Nat) : Entry := (s.node (l.getD k 0)).unlinked

structure Directory (s : Volume) (l : List U64) (n u : Nat) : Prop extends FileSystem s l n u where
  tree : Tree (rows s l) u

variable {env : Env} {s s' t : Volume} {a b z i f : U64} {j k m n n' u d p : Nat} {e : Entry}
  {l l' q r : List U64} {stop : Stop → Prop} {args : CreateArgs}

omit [SectorAccess] in
theorem rows_eq (hk : k < l.length) : rows s l k = (s.node l[k]).unlinked := by
  simp [rows, hk]

omit [SectorAccess] in
theorem sibling_rows (hk : k < l.length) (small : (BitVec.ofNat 64 k).toNat = k) :
    sibling (rows s l) (BitVec.ofNat 64 k) = (s.node l[k]).siblingIndex := by
  rw [sibling, small, rows_eq hk]
  rfl

theorem rows_putEntry (env : Env) (e : Entry) (h : Disk s l n) (hk : k < l.length)
    (root : i = 0 ↔ l[k] = 1) (hj : m < l.length) : rows (putEntry env s i l[k] e) l m =
      if m = k then e.unlinked else rows s l m := by
  rw [rows_eq hj, rows_eq hj, node_putEntry env e h.plain root]
  have same : l[m] = l[k] ↔ m = k := h.nodup.getElem_inj_iff
  by_cases eq : m = k
  · rw [if_pos (same.mpr eq), if_pos eq]
  · rw [if_neg (mt same.mp eq), if_neg eq]

/-! ## The last child -/

theorem lastSiblingFrom_linked (h : Disk s l n) (fuel : 0 < env.fuel) (hk : k < l.length)
    {cs : List Nat} (inside : ∀ c ∈ cs, c < l.length)
    (links : Linked (sibling (rows s l)) 0 (s.node l[k]).siblingIndex (cs.map (BitVec.ofNat 64)))
    (hm : cs.length < m) :
    lastSiblingFrom env m s (s.node l[k]) = .ok (s, s.node (l.getD (cs.getLastD k) 0)) := by
  induction cs generalizing k m with
  | nil =>
    obtain ⟨m, rfl⟩ : ∃ m', m = m' + 1 := ⟨m - 1, by simp at hm; omega⟩
    rw [lastSiblingFrom, if_pos (linked_nil.mp links)]
    simp [hk]
  | cons c cs ih =>
    obtain ⟨m, rfl⟩ : ∃ m', m = m' + 1 := ⟨m - 1, by simp at hm; omega⟩
    obtain ⟨eq, live, rest⟩ := linked_cons.mp links
    have hc := inside c (by simp)
    have small : (BitVec.ofNat 64 c).toNat = c := Nat.mod_eq_of_lt (hc.trans h.short)
    rw [sibling_rows hc small] at rest
    rw [lastSiblingFrom, eq, if_neg live, h.readEntry_eq fuel hc, ok_bind]
    have hm' : cs.length < m := by simpa using hm
    dsimp only
    rw [ih hc (fun x hx => inside x (by simp [hx])) rest hm', List.getLastD_cons]

/-- The scan of `GemFS_mkdir` ends at the last entry of the parent's list. -/
theorem registerSibling_of_linked (h : Disk s l n) (fuel : 514 ≤ env.fuel) (hp : p < l.length)
    {cs : List Nat} (inside : ∀ c ∈ cs, c < l.length)
    (links : Linked (sibling (rows s l)) 0 (rows s l p).start (cs.map (BitVec.ofNat 64))) :
    registerSibling env (s.node l[p]) f s = .ok (relink env f s l cs.getLast?) := by
  have start : (rows s l p).start = (s.node l[p]).start := by rw [rows_eq hp]; rfl
  have many : cs.length ≤ l.length := by
    have sub : cs ⊆ List.range l.length := fun c hc => List.mem_range.mpr (inside c hc)
    simpa using (List.subperm_of_subset links.nodup.of_map sub).length_le
  rw [start] at links
  rw [registerSibling]
  cases cs with
  | nil =>
    rw [if_pos (linked_nil.mp links)]
    rfl
  | cons c cs =>
    obtain ⟨first, live, rest⟩ := linked_cons.mp links
    have hc := inside c (by simp)
    have small : (BitVec.ofNat 64 c).toNat = c := Nat.mod_eq_of_lt (hc.trans h.short)
    rw [sibling_rows hc small] at rest
    have := h.length_le
    have := h.le_blocks
    rw [List.length_cons] at many
    have more : cs.length < env.fuel := by omega
    have pos : 0 < env.fuel := by omega
    have walk := lastSiblingFrom_linked h pos hc (fun x hx => inside x (by simp [hx])) rest more
    have some : (c :: cs).getLast? = some (cs.getLastD c) := by
      rw [List.getLast?_cons, List.getLastD_eq_getLast?]
    have last : cs.getLastD c < l.length := inside _ (List.mem_of_getLast? some)
    have place : l.getD (cs.getLastD c) 0 = l[cs.getLastD c] := by
      rw [List.getD_eq_getElem?_getD, List.getElem?_eq_getElem last]
      rfl
    rw [first, if_neg live, h.readEntry_eq (by omega) hc, ok_bind]
    dsimp only
    rw [walk, ok_bind, some, relink, place]
    dsimp only
    rw [h.index_ofNat last, h.writeEntry_eq (by omega) last]

/-! ## `GemFS_mkdir` -/

omit [SectorAccess] in
@[simp] theorem unlinked_unlinked (e : Entry) : e.unlinked.unlinked = e.unlinked := rfl

omit [SectorAccess] in
theorem unlinked_entryAfter (f : U64) (p : Nat) (o : Option Nat) (k : Nat) (e : Entry) :
    (entryAfter f p o k e).unlinked = entryAfter f p o k e.unlinked := by
  rw [entryAfter, entryAfter, parentAfter, parentAfter]
  split_ifs with _ h h' <;> first | rfl | exact absurd h h' | exact absurd ‹_› ‹¬_›

omit [SectorAccess] in
@[simp] theorem inUse_entryAfter {o : Option Nat} : (entryAfter f p o k e).inUse = e.inUse := by
  rw [entryAfter, parentAfter]
  split_ifs <;> rfl

omit [SectorAccess] in
theorem Tree.of_eq {ent ent' : Nat → Entry} (h : Tree ent u) (eq : ∀ k ≤ u, ent' k = ent k) :
    Tree ent' u :=
  h.congr (fun k hk => by rw [eq k hk]) (fun k hk => by rw [eq k hk]) (fun k hk => by rw [eq k hk])
    fun k hk _ => by rw [eq k hk]

theorem Grown.rows_eq (h : Grown s l n s' l' n') (hk : k < l.length) :
    rows s' l' k = rows s l k := by
  rw [GemFS.rows_eq hk, GemFS.rows_eq (hk.trans_le h.more.length_le), h.getElem hk,
    h.kept _ (List.getElem_mem hk)]

theorem Grown.directory (h : Grown s l n s' l' n') (dir : Directory s l n u) :
    Directory s' l' n' u :=
  ⟨h.fileSystem dir.toFileSystem,
    dir.tree.of_eq fun k hk => h.rows_eq (by have := dir.used; omega)⟩

/-- `GemFS_mkdir` with a parent in use whose list has the entries `cs`. -/
theorem mkdir_made (strict : env.findFreeBlock = findBlock) (fuel : 514 ≤ env.fuel)
    (h : FileSystem s l n u) (long : 1 < l.length) (low : p ≤ u)
    (hp : args.parentIndex = BitVec.ofNat 64 p) (name : args.nameLen.toNat ≤ 128) {cs : List Nat}
    (inside : ∀ c ∈ cs, c ≤ u)
    (links : Linked (sibling (rows s l)) 0 (rows s l p).start (cs.map (BitVec.ofNat 64))) :
    Ends (OutOfBlocks n (u + 2 - l.length + 1))
      (fun r => r.2 = BitVec.ofNat 64 (u + 1) ∧ ∃ l' n',
        Made s l n u p cs.getLast? (newDir args (BitVec.ofNat 64 (u + 1))) r.1 l' n' ∧
          n' + l.length = n + max l.length (u + 2) + 1 ∧
            ∀ b ∈ l', b ∉ l → n ≤ b.toNat ∧ b.toNat + 1 < n') (mkdir env args s) := by
  have used := h.used
  have at_p : slot args.parentIndex = p := by
    have := h.length_le.trans h.le_blocks
    rw [hp]
    exact slot_ofNat (by omega)
  refine mkdir_ends (R := fun s₂ l₂ n₂ t l₃ n₃ o => t = s₂ ∧ l₃ = l₂ ∧ n₃ = n₂ ∧
    o = cs.getLast?) strict fuel h long rfl ?_ (fun long => by omega) ?_ ?_
  · exact fun c hc => hc.mono (by omega)
  · intro s₂ l₂ n₂ b prepared
    have row (k : Nat) (hk : k ≤ u) : rows s₂ l₂ k = rows s l k := prepared.rows_eq (by omega)
    have length := prepared.length
    have here : l₂[p] = b := by
      have := prepared.parent
      rw [at_p] at this
      exact (List.getElem?_eq_some_iff.mp this).2
    have links₂ : Linked (sibling (rows s₂ l₂)) 0 (rows s₂ l₂ p).start
        (cs.map (BitVec.ofNat 64)) := by
      rw [row p low]
      refine links.congr fun x hx => ?_
      obtain ⟨c, hc, rfl⟩ := List.mem_map.mp hx
      have := inside c hc
      have small : (BitVec.ofNat 64 c).toNat = c :=
        Nat.mod_eq_of_lt ((show c < l.length by omega).trans h.short)
      rw [sibling, sibling, small, row c (by omega)]
    have eq := registerSibling_of_linked (f := BitVec.ofNat 64 (u + 1)) prepared.disk fuel
      (by omega) (fun c hc => by have := inside c hc; omega) links₂
    rw [here] at eq
    rw [eq]
    refine ⟨s₂, l₂, n₂, _, .refl prepared.disk, fun j hj => ?_, ⟨rfl, rfl, rfl, rfl⟩, rfl⟩
    have := inside j (List.mem_of_getLast? hj)
    omega
  · rintro s₂ l₂ n₂ b t l₃ n₃ o prepared grown ho ⟨-, rfl, rfl, rfl⟩ hk
    obtain ⟨s', eq, made⟩ := made_of_found env (by omega) h rfl hp low prepared.toFound grown ho hk
    rw [eq, ok_bind]
    have length := prepared.length
    have count := prepared.count
    exact ⟨rfl, _, _, made, by omega, fun c hc absent =>
      prepared.block (by omega) c (List.mem_of_mem_take hc) absent⟩

/-- What `GemFS_mkdir` with the parent `p` makes of the entries: one more child, `e`. -/
structure ChildAdded (s : Volume) (l : List U64) (n u p : Nat) (e : Entry) (s' : Volume)
    (l' : List U64) (n' : Nat) : Prop extends Directory s' l' n' (u + 1) where
  length : l'.length = u + 2
  more : l.take (u + 2) <+: l'
  count : n' + l.length = n + max l.length (u + 2) + 1
  block : ∀ b ∈ l', b ∉ l → n ≤ b.toNat ∧ b.toNat + 1 < n'
  after : ∀ k ≤ u + 1, rows s' l' k = addChild (rows s l) u p e k
  frame : ∀ b ∉ l, b ≠ 4 → b.toNat < n ∨ n' ≤ b.toNat → SameBytes (s'.block b) (s.block b)
  faithful : Faithful s l → Faithful s' l'
  lbaStart : s'.lbaStart = s.lbaStart

theorem Made.rows_old {o : Option Nat} (h : FileSystem s l n u) (made : Made s l n u p o e s' l' n')
    (hk : k ≤ u) : rows s' l' k = entryAfter (BitVec.ofNat 64 (u + 1)) p o k (rows s l k) := by
  have used := h.used
  have length := made.length
  rw [rows_eq (by omega), made.old k (by omega) (by omega) hk, unlinked_entryAfter,
    ← rows_eq (by omega)]

theorem Made.rows_new {o : Option Nat} (made : Made s l n u p o e s' l' n') :
    rows s' l' (u + 1) = e.unlinked := by
  have length := made.length
  rw [rows_eq (by omega), made.new (by omega)]

/-- There is one more entry in use. -/
theorem Made.fileSystem {o : Option Nat} (h : FileSystem s l n u)
    (made : Made s l n u p o e s' l' n') (inUse : e.inUse = true) :
    FileSystem s' l' n' (u + 1) := by
  have used := h.used
  have length := made.length
  refine ⟨made.disk, by omega, fun k hk => ?_⟩
  have row : (s'.node l'[k]).inUse = (rows s' l' k).inUse := by rw [rows_eq hk]; rfl
  rw [row, decide_eq_true (show k ≤ u + 1 by omega)]
  rcases Nat.lt_or_ge u k with gt | le
  · obtain rfl : k = u + 1 := by omega
    rw [made.rows_new]
    exact inUse
  · rw [made.rows_old h le, inUse_entryAfter, rows_eq (by omega)]
    exact (h.inUse k (by omega)).trans (decide_eq_true le)

theorem Made.childAdded {o : Option Nat} (h : Directory s l n u) (low : p ≤ u)
    (dir : (rows s l p).isDirectory = true) (hp : args.parentIndex = BitVec.ofNat 64 p)
    (inUse : args.flags.getLsbD 0 = true) (ho : o = (children (rows s l) u p).getLast?)
    (made : Made s l n u p o (newDir args (BitVec.ofNat 64 (u + 1))) s' l' n')
    (count : n' + l.length = n + max l.length (u + 2) + 1)
    (block : ∀ b ∈ l', b ∉ l → n ≤ b.toNat ∧ b.toNat + 1 < n') :
    ChildAdded s l n u p (newDir args (BitVec.ofNat 64 (u + 1))) s' l' n' := by
  have bound := made.disk.length_le.trans made.disk.le_blocks
  have length := made.length
  have all (k : Nat) (hk : k ≤ u + 1) : rows s' l' k =
      addChild (rows s l) u p (newDir args (BitVec.ofNat 64 (u + 1))) k := by
    rcases Nat.lt_or_ge u k with gt | le
    · obtain rfl : k = u + 1 := by omega
      rw [made.rows_new, addChild_new]
      rfl
    · rw [made.rows_old h.toFileSystem le, addChild_old le, ho]
  have parent : (newDir args (BitVec.ofNat 64 (u + 1))).parentIndex.toNat = p := by
    have short := h.short
    have used := h.used
    exact (congrArg BitVec.toNat hp).trans (Nat.mod_eq_of_lt (by omega))
  have tree := h.tree.addChild low dir parent rfl rfl (by omega)
  exact ⟨⟨made.fileSystem h.toFileSystem inUse, tree.of_eq all⟩, length, made.more, count, block,
    all, made.frame, made.faithful, made.lbaStart⟩

theorem mkdir_directory (strict : env.findFreeBlock = findBlock) (fuel : 514 ≤ env.fuel)
    (h : Directory s l n u) (long : 1 < l.length) (low : p ≤ u) (hp : args.parentIndex = BitVec.ofNat 64 p)
    (dir : (rows s l p).isDirectory = true) (inUse : args.flags.getLsbD 0 = true)
    (name : args.nameLen.toNat ≤ 128) :
    Ends (OutOfBlocks n (u + 2 - l.length + 1))
      (fun r => r.2 = BitVec.ofNat 64 (u + 1) ∧ ∃ l' n', ChildAdded s l n u p
        (newDir args (BitVec.ofNat 64 (u + 1))) r.1 l' n') (mkdir env args s) := by
  have made := mkdir_made strict fuel h.toFileSystem long low hp name
    (fun c hc => (mem_children.mp hc).2.1) (h.tree.lists p low dir)
  refine made.imp ?_
  rintro r ⟨index, l', n', made, count, block⟩
  exact ⟨index, l', n', made.childAdded h low dir hp inUse rfl count block⟩

/-! ## `GemFS_CreateFile` -/

/-- The entry of a file as `GemFS_CreateFile` completes it. -/
def newFile (args : CreateArgs) (f first size : U64) : Entry :=
  { newDir args f with start := first, size := size }

/-- Blocks that were reserved before do not show in the entries. -/
theorem ChildAdded.of_ranged {m : Nat} (h : Directory s l n u) (ranged : Grown s l n t l m)
    (added : ChildAdded t l m u p e s' l' n') : ChildAdded s l m u p e s' l' n' where
  toDirectory := added.toDirectory
  length := added.length
  more := added.more
  count := added.count
  block := added.block
  after k hk := (added.after k hk).trans
    (addChild_congr (fun j hj => ranged.rows_eq (by have := h.used; omega)) hk)
  frame b hb h4 outside := (added.frame b hb h4 outside).trans (ranged.frame b hb h4)
  faithful hf := added.faithful (ranged.faithful hf)
  lbaStart := added.lbaStart.trans ranged.lbaStart

theorem ChildAdded.of_grown {m : Nat} {s₂ : Volume} {l₂ : List U64} {n₂ : Nat}
    (h : Directory s l m u) (grown : GrownTo s l m (u + 2) s₂ l₂ n₂)
    (added : ChildAdded s₂ l₂ n₂ u p e s' l' n') : ChildAdded s l m u p e s' l' n' where
  toDirectory := added.toDirectory
  length := added.length
  more := (grown.more.take (u + 2)).trans added.more
  count := by
    have := added.count
    have := grown.count
    have := grown.length
    omega
  block b hb absent := by
    have := added.count
    have := grown.le
    by_cases mem : b ∈ l₂
    · have := grown.disk.placed b mem
      exact ⟨(grown.fresh b mem absent).1, by omega⟩
    · have := added.block b hb mem
      omega
  after k hk := (added.after k hk).trans
    (addChild_congr (fun j hj => grown.rows_eq (by have := h.used; omega)) hk)
  frame b hb h4 outside := by
    have le := grown.le
    have count := added.count
    have absent : b ∉ l₂ := fun mem => by
      have := (grown.fresh b mem hb).1
      have := grown.disk.placed b mem
      omega
    exact (added.frame b absent h4 (by omega)).trans (grown.frame b absent h4)
  faithful hf := added.faithful (grown.faithful hf)
  lbaStart := added.lbaStart.trans grown.lbaStart

/-- The new entry is rewritten in place, as an entry of a file. -/
theorem ChildAdded.rewrite {m : Nat} (env : Env) (e' : Entry)
    (added : ChildAdded s l m u p e s' l' n')
    (hk : u + 1 < l'.length) (index : e'.index = BitVec.ofNat 64 (u + 1))
    (link : e'.nextIndexStart = s'.next l'[u + 1]) (parent : e'.parentIndex = e.parentIndex)
    (sib : e'.siblingIndex = e.siblingIndex) (flags : e'.flags = e.flags)
    (file : e.isDirectory = false) : ChildAdded s l m u p e'.unlinked
      (putEntry env s' (BitVec.ofNat 64 (u + 1)) l'[u + 1] e') l' n' := by
  have root := added.root_ofNat hk
  have at_f : e'.index.toNat = u + 1 := by
    rw [index]
    exact Nat.mod_eq_of_lt (hk.trans added.short)
  have node := node_putEntry env e' added.plain root
  have new : rows (putEntry env s' (BitVec.ofNat 64 (u + 1)) l'[u + 1] e') l' (u + 1) =
      e'.unlinked := by
    rw [rows_putEntry env e' added.toDisk hk root hk, if_pos rfl]
  have old (k : Nat) (hk' : k < l'.length) (ne : k ≠ u + 1) :
      rows (putEntry env s' (BitVec.ofNat 64 (u + 1)) l'[u + 1] e') l' k = rows s' l' k := by
    rw [rows_putEntry env e' added.toDisk hk root hk', if_neg ne]
  have last : rows s' l' (u + 1) = e := by rw [added.after _ (Nat.le_refl _), addChild_new]
  have length := added.length
  refine ⟨⟨⟨added.put_keep_at env hk root at_f link, added.used, fun k hk' => ?_⟩, ?_⟩, length,
    added.more, added.count, added.block, fun k hk' => ?_, fun c hc h4 outside => ?_, fun hf => ?_,
    ?_⟩
  · rw [node]
    split_ifs with eq
    · obtain rfl := added.nodup.getElem_inj_iff.mp eq
      have before := added.inUse _ hk
      have same : (s'.node l'[u + 1]).flags = e.flags := by
        rw [← last, rows_eq hk]
        rfl
      rw [Entry.inUse, same, ← flags] at before
      exact before
    · exact added.inUse k hk'
  · -- the entry of a file is not the head of a list
    have same {α : Type} (g : Entry → α) (hg : g e'.unlinked = g e) (k : Nat) (le : k ≤ u + 1) :
        g (rows (putEntry env s' (BitVec.ofNat 64 (u + 1)) l'[u + 1] e') l' k) =
          g (rows s' l' k) := by
      by_cases eq : k = u + 1
      · rw [eq, new, hg, last]
      · rw [old k (by omega) eq]
    have dir : e'.unlinked.isDirectory = e.isDirectory := by
      rw [Entry.isDirectory, Entry.isDirectory, ← flags]
      rfl
    refine added.tree.congr (same _ parent) (same _ sib) (same _ dir) fun k le isDir => ?_
    by_cases eq : k = u + 1
    · rw [eq, last, file] at isDir
      cases isDir
    · rw [old k (by omega) eq]
  · rcases Nat.lt_or_ge u k with gt | le
    · obtain rfl : k = u + 1 := by omega
      rw [new, addChild_new]
    · rw [old k (by omega) (by omega), added.after k hk', addChild_old le, addChild_old le]
  · have absent : c ∉ l' := fun mem => by
      have := added.block c mem hc
      omega
    have other : c ≠ l'[u + 1] := fun eq => absent (eq ▸ List.getElem_mem hk)
    rw [block_putEntry added.plain root other]
    exact added.frame c hc h4 outside
  · exact Faithful.put_at env added.toDisk hk root at_f index (added.faithful hf)
  · rw [lbaStart_putEntry, added.lbaStart]

/-- `GemFS_CreateFile` reserves its blocks, has the entry after those in use made, and completes the
one that `GemFS_mkdir` writes there. -/
theorem createFile_ends {size : U64} {post : Volume × U64 → Prop}
    (strict : env.findFreeBlock = findBlock) (fuel : 514 ≤ env.fuel) (h : FileSystem s l n u)
    (long : 1 < l.length)
    (full : ∀ c, OutOfBlocks n (size.toNat + (u + 2 - l.length) + 1) c → stop c)
    (made : ∀ t s₂ l₂ n₂, Grown s l n t l (min capacity (n + size.toNat)) →
      GrownTo t l (min capacity (n + size.toNat)) (u + 2) s₂ l₂ n₂ →
      (∀ c, OutOfBlocks n₂ (u + 2 - l₂.length + 1) c → stop c) →
      Ends stop
        (fun r => ∃ l₃ n₃, Disk r.1 l₃ n₃ ∧ ∃ hk : u + 1 < l₃.length,
          post (putEntry env r.1 (BitVec.ofNat 64 (u + 1)) l₃[u + 1]
            { r.1.node l₃[u + 1] with start := BitVec.ofNat 64 n, size := size },
            BitVec.ofNat 64 (u + 1)))
        (mkdir env args s₂)) :
    Ends stop post (createFile env args size s) := by
  rw [createFile, strict, findBlock_of_disk h.toDisk]
  by_cases room : n < capacity
  swap
  · rw [if_neg room]
    exact full _ ⟨rfl, by omega⟩
  obtain ⟨t, eq, ranged⟩ := setRange_grown h.toDisk size
  rw [if_pos room, ok_bind, eq, ok_bind]
  have stops (c : Stop) (k : Nat) (hk : k ≤ u + 2 - l.length + 1)
      (hc : OutOfBlocks (min capacity (n + size.toNat)) k c) : stop c :=
    full c ⟨hc.1, by have := hc.2; omega⟩
  have found := findFreeEntry_grows strict fuel (ranged.fileSystem h) long
  refine (found.mono (fun c hc => stops c _ (by omega) hc) fun _ => id).bind ?_
  rintro ⟨s₂, f⟩ ⟨hf, l₂, n₂, grown⟩
  obtain rfl : f = BitVec.ofNat 64 (u + 1) := hf
  have length := grown.length
  have count := grown.count
  dsimp only
  refine (made t s₂ l₂ n₂ ranged grown fun c hc => ?_).bind ?_
  · exact stops c (u + 2 - l.length + 1) (Nat.le_refl _) (hc.mono (by omega))
  rintro ⟨s₃, f⟩ ⟨l₃, n₃, disk, hk, done⟩
  dsimp only at disk done ⊢
  rw [disk.readEntry_eq (by omega) hk, ok_bind]
  dsimp only
  rw [disk.writeEntry_eq (by omega) hk, ok_bind]
  exact done

theorem createFile_directory {size : U64} (strict : env.findFreeBlock = findBlock)
    (fuel : 514 ≤ env.fuel) (h : Directory s l n u) (long : 1 < l.length) (low : p ≤ u)
    (hp : args.parentIndex = BitVec.ofNat 64 p) (dir : (rows s l p).isDirectory = true)
    (inUse : args.flags.getLsbD 0 = true) (file : args.flags.getLsbD 4 = false)
    (name : args.nameLen.toNat ≤ 128) :
    Ends (OutOfBlocks n (size.toNat + (u + 2 - l.length) + 1))
      (fun r => r.2 = BitVec.ofNat 64 (u + 1) ∧ ∃ l' n', ChildAdded s l (min capacity (n + size.toNat)) u p
        (newFile args (BitVec.ofNat 64 (u + 1)) (BitVec.ofNat 64 n) size) r.1 l' n')
      (createFile env args size s) := by
  refine createFile_ends strict fuel h.toFileSystem long (fun _ => id)
    fun t s₂ l₂ n₂ ranged grown stops => ?_
  have used := h.used
  have length := grown.length
  have ht := ranged.directory h
  have made := mkdir_directory strict fuel (grown.directory ht) (by omega) low hp
    (by rw [grown.rows_eq (by omega), ranged.rows_eq (by omega)]; exact dir) inUse name
  refine made.mono stops ?_
  rintro ⟨s₃, f⟩ ⟨-, l₃, n₃, added⟩
  have hk := added.used
  refine ⟨l₃, n₃, added.toDisk, hk, ?_⟩
  dsimp only at added ⊢
  have before := (added.of_grown ht grown).of_ranged h ranged
  have last : (s₃.node l₃[u + 1]).unlinked = newDir args (BitVec.ofNat 64 (u + 1)) := by
    rw [← rows_eq hk, before.after _ (Nat.le_refl _), addChild_new]
  have parent : (s₃.node l₃[u + 1]).parentIndex = args.parentIndex := by
    have := congrArg Entry.parentIndex last
    exact this
  have sib : (s₃.node l₃[u + 1]).siblingIndex = 0 := by
    have := congrArg Entry.siblingIndex last
    exact this
  have flags : (s₃.node l₃[u + 1]).flags = args.flags := by
    have := congrArg Entry.flags last
    exact this
  have done := before.rewrite env
    { s₃.node l₃[u + 1] with start := BitVec.ofNat 64 n, size := size } hk
    (added.index_ofNat hk) rfl parent sib flags file
  have entry : { s₃.node l₃[u + 1] with start := BitVec.ofNat 64 n, size := size }.unlinked =
      newFile args (BitVec.ofNat 64 (u + 1)) (BitVec.ofNat 64 n) size := by
    rw [newFile, ← last]
    rfl
  rw [entry] at done
  exact ⟨rfl, l₃, n₃, done⟩

end ChudOS.GemFS
