import ChudOS.Filesys.Format

/-!
# Calls with any arguments

`GemFS_mkdir` checks nothing about its parent, which may be a file, an entry that is not in use, or
one past the end of the chain. Whatever it is, the entries in use stay where they are, and but for
one sibling and one start as they are.

## Main definitions

* `Touched` — what may have changed in an entry that is in use.
* `Survives` — what every call leaves as it was.
-/

namespace ChudOS.GemFS

open Volume LinkedChain Outcome

variable [SectorAccess]

/-- A start that was 0 may have been set. -/
structure Touched (e e' : Entry) : Prop where
  size : e'.size = e.size
  flags : e'.flags = e.flags
  start : e'.start = e.start ∨ e.start = 0

/-- From `s`, where the entries up to `u` count, to `s'`, where those up to `u'` are in use. -/
structure Survives (s : Volume) (l : List U64) (n u : Nat) (s' : Volume) (l' : List U64)
    (n' u' : Nat) : Prop extends FileSystem s' l' n' u' where
  stay : l.take (u + 1) <+: l'
  fresh : ∀ b ∈ l', b ∉ l → n ≤ b.toNat
  marks : n ≤ n'
  more : u ≤ u'
  touched : ∀ k ≤ u, Touched (rows s l k) (rows s' l' k)
  new : ∀ k ≤ u', u < k → Apart (rows s' l' k)

variable {env : Env} {s s' s'' t : Volume} {b f i : U64} {k m n n' n'' u u' u'' p : Nat}
  {e e' e'' : Entry} {l l' l'' q r : List U64} {o : Option Nat} {args : CreateArgs}

namespace Touched

omit [SectorAccess] in
theorem refl (e : Entry) : Touched e e := ⟨rfl, rfl, .inl rfl⟩

omit [SectorAccess] in
theorem trans (h : Touched e e') (h' : Touched e' e'') : Touched e e'' where
  size := h'.size.trans h.size
  flags := h'.flags.trans h.flags
  start := by
    rcases h.start with same | zero
    · rcases h'.start with same' | zero
      · exact .inl (same'.trans same)
      · exact .inr (same.symm.trans zero)
    · exact .inr zero

omit [SectorAccess] in
theorem apart (h : Touched e e') (apart : Apart e) : Apart e' := by
  intro size
  have before := apart (h.size.symm.trans size)
  rcases h.start with same | zero
  · rwa [same]
  · exact absurd zero before.1

end Touched

omit [SectorAccess] in
theorem Touched.unlinked (h : Touched e e') : Touched e.unlinked e'.unlinked :=
  ⟨h.size, h.flags, h.start⟩

omit [SectorAccess] in
theorem touched_parentAfter (e : Entry) (f : U64) : Touched e (parentAfter e f) := by
  rw [parentAfter]
  split_ifs with zero
  · exact ⟨rfl, rfl, .inr zero⟩
  · exact .refl e

omit [SectorAccess] in
/-- The first entries stay in place over two steps. -/
theorem stay_trans (hk : k ≤ l.length) (h : l.take k <+: l') (h' : l'.take k <+: l'') :
    l.take k <+: l'' := by
  have eq := List.prefix_iff_eq_take.mp h
  rw [List.length_take, Nat.min_eq_left hk] at eq
  rwa [eq]

namespace Survives

theorem trans (h : Survives s l n u s' l' n' u') (used : u < l.length)
    (h' : Survives s' l' n' u s'' l'' n'' u'') : Survives s l n u s'' l'' n'' u'' where
  toFileSystem := h'.toFileSystem
  stay := stay_trans used h.stay h'.stay
  fresh b mem absent := by
    by_cases old : b ∈ l'
    · exact h.fresh b old absent
    · exact h.marks.trans (h'.fresh b mem old)
  marks := h.marks.trans h'.marks
  more := h'.more
  touched k hk := (h.touched k hk).trans (h'.touched k hk)
  new := h'.new

theorem refl (fs : FileSystem s l n u) : Survives s l n u s l n u where
  toFileSystem := fs
  stay := List.take_prefix _ _
  fresh _ mem absent := absurd mem absent
  marks := Nat.le_refl n
  more := Nat.le_refl u
  touched _ _ := .refl _
  new _ le lt := absurd lt (Nat.not_lt.mpr le)

theorem grown (h : Survives s l n u s' l' n' u') (g : Grown s' l' n' s'' l'' n'') :
    Survives s l n u s'' l'' n'' u' where
  toFileSystem := g.fileSystem h.toFileSystem
  stay := h.stay.trans g.more
  fresh b mem absent := by
    by_cases old : b ∈ l'
    · exact h.fresh b old absent
    · exact h.marks.trans (g.fresh b mem old).1
  marks := h.marks.trans g.le
  more := h.more
  touched k hk := by
    have used := h.used
    have more := h.more
    rw [g.rows_eq (by omega)]
    exact h.touched k hk
  new k le lt := by
    have used := h.used
    rw [g.rows_eq (by omega)]
    exact h.new k le lt

/-- An entry is written in its place, with its own flags and its own link. -/
theorem put (env : Env) (h : Survives s l n u s' l' n' u') (hk : k < l'.length)
    (root : i = 0 ↔ l'[k] = 1) (index : e.index.toNat = k) (keep : e.nextIndexStart = s'.next l'[k])
    (flags : e.flags = (s'.node l'[k]).flags)
    (touched : k ≤ u → Touched (GemFS.rows s l k) e.unlinked) (new : u < k → k ≤ u' → Apart e) :
    Survives s l n u (putEntry env s' i l'[k] e) l' n' u' := by
  have node := node_putEntry env e h.plain root
  have row (j : Nat) (hj : j < l'.length) := rows_putEntry env e h.toDisk hk root hj
  have used := h.used
  have more := h.more
  refine ⟨⟨h.put_keep_at env hk root index keep, used, fun j hj => ?_⟩, h.stay, h.fresh, h.marks, more,
    fun j hj => ?_, fun j le lt => ?_⟩
  · rw [node]
    split_ifs with eq
    · obtain rfl := h.nodup.getElem_inj_iff.mp eq
      rw [← h.inUse j hj, Entry.inUse, Entry.inUse, flags]
    · exact h.inUse j hj
  · rw [row j (by omega)]
    split_ifs with eq
    · subst eq
      exact touched hj
    · exact h.touched j hj
  · rw [row j (by omega)]
    split_ifs with eq
    · subst eq
      exact new lt le
    · exact h.new j le lt

end Survives

/-! ## Any sibling -/

theorem lastSiblingFrom_grows (strict : env.findFreeBlock = findBlock) (fuel : 2 ≤ env.fuel)
    (h : Disk s l n) (long : 1 < l.length) (hk : k < l.length) :
    Ends (fun _ => True) (fun r => ∃ l' n' j, ∃ hj : j < l'.length, Grown s l n r.1 l' n' ∧
      r.2 = r.1.node l'[j]) (lastSiblingFrom env m s (s.node l[k])) := by
  induction m generalizing s l n k with
  | zero => trivial
  | succ m ih =>
    rw [lastSiblingFrom]
    split_ifs
    · exact ⟨l, n, k, hk, .refl h, rfl⟩
    · have look := readEntry_grows strict fuel h long (s.node l[k]).siblingIndex
      refine (look.mono (fun _ _ => trivial) fun _ => id).bind ?_
      rintro ⟨s', e⟩ ⟨l', n', b, grown, found, eq⟩
      obtain ⟨lt, rfl⟩ := List.getElem?_eq_some_iff.mp found
      have length := grown.length
      dsimp only at eq ⊢
      rw [eq]
      refine (ih grown.disk (by omega) lt).imp ?_
      rintro r ⟨l'', n'', j, hj, grown', last⟩
      exact ⟨l'', n'', j, hj, grown.toGrown.trans grown', last⟩

/-- Whatever the start of the parent, at most one entry is relinked. -/
theorem registerSibling_grows (strict : env.findFreeBlock = findBlock) (fuel : 2 ≤ env.fuel)
    (h : Disk s l n) (long : 1 < l.length) (parent : Entry) (f : U64) :
    Ends (fun _ => True) (fun s' => ∃ t l' n' o, Grown s l n t l' n' ∧ (∀ j ∈ o, j < l'.length) ∧
      s' = relink env f t l' o) (registerSibling env parent f s) := by
  rw [registerSibling]
  split_ifs
  · exact ⟨s, l, n, none, .refl h, fun j hj => absurd hj (Option.not_mem_none j), rfl⟩
  · have look := readEntry_grows strict fuel h long parent.start
    refine (look.mono (fun _ _ => trivial) fun _ => id).bind ?_
    rintro ⟨s', e⟩ ⟨l', n', b, grown, found, eq⟩
    obtain ⟨lt, rfl⟩ := List.getElem?_eq_some_iff.mp found
    have length := grown.length
    dsimp only at eq ⊢
    rw [eq]
    refine (lastSiblingFrom_grows strict fuel grown.disk (by omega) lt).bind ?_
    rintro ⟨t, e'⟩ ⟨l'', n'', j, hj, grown', last⟩
    dsimp only at last ⊢
    rw [last, grown'.disk.index_ofNat hj, grown'.disk.writeEntry_eq (by omega) hj]
    refine ⟨t, l'', n'', some j, grown.toGrown.trans grown', ?_, ?_⟩
    · intro i hi
      obtain rfl := Option.mem_some_iff.mp hi
      exact hj
    · simp [relink, hj, grown'.disk.index_ofNat hj]

theorem relink_survives (env : Env) (f : U64) (fs : FileSystem s l n u)
    (ho : ∀ j ∈ o, j < l.length) : Survives s l n u (relink env f s l o) l n u where
  toFileSystem := fs.relink env f ho
  stay := List.take_prefix _ _
  fresh _ mem absent := absurd mem absent
  marks := Nat.le_refl n
  more := Nat.le_refl u
  touched k hk := by
    have used := fs.used
    have hl : k < l.length := by omega
    rw [rows_eq hl, rows_eq hl, node_relink fs.toDisk ho hl]
    split_ifs
    · exact ⟨rfl, rfl, .inl rfl⟩
    · exact .refl _
  new k le lt := absurd lt (Nat.not_lt.mpr le)

/-! ## The new entry -/

/-- How many entries are in use once the entry after `u` others was written. -/
def usedAfter (args : CreateArgs) (u : Nat) : Nat := if args.flags.getLsbD 0 then u + 1 else u

omit [SectorAccess] in
theorem le_usedAfter : u ≤ usedAfter args u := by
  rw [usedAfter]
  split_ifs <;> omega

omit [SectorAccess] in
theorem usedAfter_le : usedAfter args u ≤ u + 1 := by
  rw [usedAfter]
  split_ifs <;> omega

omit [SectorAccess] in
theorem rows_take (hk : k < m) : rows s (l.take m) k = rows s l k := by
  rw [rows, rows, List.getD_eq_getElem?_getD, List.getD_eq_getElem?_getD, List.getElem?_take_of_lt hk]

/-- The new entry is written, and the chain ends with it. -/
theorem newDir_survives (env : Env) (args : CreateArgs) (fs : FileSystem s l n u)
    (hk : u + 1 < l.length) : Survives s l n u
      (putEntry env s (BitVec.ofNat 64 (u + 1)) l[u + 1] (newDir args (BitVec.ofNat 64 (u + 1))))
      (l.take (u + 2)) n (usedAfter args u) := by
  have root := fs.root_ofNat hk
  have at_f : (newDir args (BitVec.ofNat 64 (u + 1))).index.toNat = u + 1 :=
    Nat.mod_eq_of_lt (hk.trans fs.short)
  have node := node_putEntry env (newDir args (BitVec.ofNat 64 (u + 1))) fs.plain root
  have length : (l.take (u + 2)).length = u + 2 := by rw [List.length_take]; omega
  have row (k : Nat) (le : k ≤ u + 1) := rows_putEntry env
    (newDir args (BitVec.ofNat 64 (u + 1))) fs.toDisk hk root (show k < l.length by omega)
  have old (k : Nat) (le : k ≤ u) : rows (putEntry env s (BitVec.ofNat 64 (u + 1)) l[u + 1]
      (newDir args (BitVec.ofNat 64 (u + 1)))) (l.take (u + 2)) k = rows s l k := by
    rw [rows_take (by omega), row k (by omega), if_neg (by omega)]
  refine ⟨⟨fs.toDisk.put_cut_at env hk root at_f rfl, ?_, fun k hk' => ?_⟩, ?_, fun b mem absent => ?_,
    Nat.le_refl n, le_usedAfter, fun k hk => ?_, fun k le lt => ?_⟩
  · have := @usedAfter_le u args
    omega
  · have place : (l.take (u + 2))[k] = l[k] := List.getElem_take
    rw [place, node]
    by_cases last : k = u + 1
    · subst last
      rw [if_pos rfl, usedAfter]
      change args.flags.getLsbD 0 = _
      cases args.flags.getLsbD 0 <;> simp
    · have other : l[k] ≠ l[u + 1] := fun eq => last (fs.nodup.getElem_inj_iff.mp eq)
      have := @le_usedAfter u args
      rw [if_neg other, fs.inUse k (by omega), decide_eq_true (by omega), decide_eq_true (by omega)]
  · rw [← Nat.min_eq_left (Nat.le_succ (u + 1)), ← List.take_take]
    exact List.take_prefix _ _
  · exact absurd (List.mem_of_mem_take mem) absent
  · rw [old k hk]
    exact .refl _
  · have := @usedAfter_le u args
    obtain rfl : k = u + 1 := by omega
    rw [rows_take (by omega), row _ (Nat.le_refl _), if_pos rfl]
    exact apart_of_size (show (0 : U64) ≠ 1 by decide)

/-! ## The parent is written back -/

omit [SectorAccess] in
theorem Chain.next_last (h : Chain s l) (hk : k < l.length) (last : l.length ≤ k + 1) :
    s.next l[k] = 0 := by
  have split : l.take k ++ [l[k]] = l := by
    rw [List.take_append_getElem, List.take_of_length_le last]
  have ended := h.entries.linked
  rw [← split] at ended
  exact ended.next_last

omit [SectorAccess] in
theorem Chain.entries_drop (h : Chain s l) (hk : k < l.length) : Entries s l[k] k (l.drop k) := by
  have whole := h.entries
  rw [← List.take_append_drop k l] at whole
  obtain ⟨b, -, -, -, -, rest⟩ := entries_append.mp whole
  rw [Nat.zero_add, List.length_take, Nat.min_eq_left hk.le] at rest
  have head := rest.linked
  rw [List.drop_eq_getElem_cons hk] at head
  rwa [head.head] at rest

/-- What the chain held behind the new entry stays as it was, outside of the chain. -/
theorem tail_kept {x : Volume} (fs : FileSystem x l n u) (hk : u + 1 < l.length)
    (g : Grown (putEntry env x (BitVec.ofNat 64 (u + 1)) l[u + 1] e) (l.take (u + 2)) n s' l' n')
    (hb : b ∈ l.drop (u + 2)) : b ∉ l' ∧ s'.node b = x.node b := by
  have mem := List.mem_of_mem_drop hb
  have apart : b ∉ l.take (u + 2) := fun front => List.disjoint_take_drop fs.nodup (Nat.le_refl _)
    front hb
  have absent : b ∉ l' := fun inside => by
    have := (g.fresh b inside apart).1
    have := fs.placed b mem
    omega
  have one : b ≠ 1 := fun eq => by
    obtain ⟨r, rfl⟩ := fs.exists_cons
    exact apart (by simp [eq])
  have four : b ≠ 4 := ne_of_mem_of_not_mem mem fs.entries.apart
  have other : b ≠ l[u + 1] := fun eq => apart (eq ▸ List.mem_take_iff_getElem.mpr
    ⟨u + 1, by omega, rfl⟩)
  refine ⟨absent, ?_⟩
  rw [node_of_ne_one one, Volume.entryIn, (g.frame b absent four).entry,
    block_putEntry fs.plain (fs.root_ofNat hk) other, node_of_ne_one one]
  rfl

section WriteBack

variable {x t : Volume} {P : Entry} {p : U64} {l₂ : List U64} {n₂ : Nat}

/-- What the copy of the parent links to, behind the new end of the chain. -/
theorem exists_tail (fs : FileSystem x l n u) (hk : u + 1 < l.length)
    (g : Grown (putEntry env x (BitVec.ofNat 64 (u + 1)) l[u + 1] e) (l.take (u + 2)) n t l₂ n₂)
    (hm : m < l.length) (high : u < m)
    (link : P.nextIndexStart = x.next l[m] ∨ P.nextIndexStart = 0) :
    ∃ r, Entries t P.nextIndexStart (m + 1) r ∧ ∀ b ∈ r, b ∈ l ∧ b ∉ l₂ ∧ t.node b = x.node b ∧
      (x.node b).inUse = false := by
  by_cases zero : P.nextIndexStart = 0
  · exact ⟨[], entries_nil.mpr zero, nofun⟩
  have next := link.resolve_right zero
  have more : m + 1 < l.length := by
    by_contra last
    exact zero (next.trans (fs.toChain.next_last hm (by omega)))
  rw [next, fs.entries.linked.next_getElem more]
  have kept (b : U64) (hb : b ∈ l.drop (m + 1)) :=
    tail_kept fs hk g ((List.drop_sublist_drop_left l (show u + 2 ≤ m + 1 by omega)).subset hb)
  refine ⟨l.drop (m + 1), (fs.entries_drop more).congr fun b hb => (kept b hb).2, fun b hb => ?_⟩
  obtain ⟨j, hj, rfl⟩ := List.mem_iff_getElem.mp hb
  have inside : m + 1 + j < l.length := by rw [List.length_drop] at hj; omega
  have place : (l.drop (m + 1))[j] = l[m + 1 + j] := List.getElem_drop
  refine ⟨List.mem_of_mem_drop hb, (kept _ hb).1, (kept _ hb).2, ?_⟩
  rw [place, fs.inUse]
  exact decide_eq_false (by omega)

/-- A parent that is not in use, and that the chain has grown up to, may bring the rest of the chain
back. -/
theorem writeBack_high (used : u < l.length) (after : Survives s l n u t l₂ n₂ u')
    (length : l₂.length = m + 1) (high : u < m) (root : i = 0 ↔ l₂[m] = 1)
    (index : P.index.toNat = m) (unused : P.inUse = false)
    (tail : Entries t P.nextIndexStart (m + 1) r)
    (rest : ∀ b ∈ r, b ∉ l₂ ∧ (t.node b).inUse = false ∧ b.toNat < n₂ ∧ (b ∉ l → n ≤ b.toNat)) :
    ∃ l' u'', Survives s l n u (putEntry env t i l₂[m] P) l' n₂ u'' ∧ m < l'.length ∧ u'' ≤ u' := by
  have split : l₂.take m ++ l₂[m] :: [] = l₂ := by
    rw [List.take_append_getElem, List.take_of_length_le (by omega)]
  have front : (l₂.take m).length = m := by rw [List.length_take]; omega
  have disk : Disk (putEntry env t i l₂[m] P) (l₂.take m ++ l₂[m] :: r) n₂ := by
    have whole := after.toDisk
    rw [← split] at whole
    refine whole.put env root (by rw [front, index]) (by rwa [front])
      (fun mem => (rest _ mem).1 (List.getElem_mem _)) fun b hb => (rest b hb).2.2.1
  have node := node_putEntry env P after.plain root
  have low (k : Nat) (hk : k < m) (hk' : k < (l₂.take m ++ l₂[m] :: r).length) :
      (l₂.take m ++ l₂[m] :: r)[k] = l₂[k] ∧
        (putEntry env t i l₂[m] P).node l₂[k] = t.node l₂[k] := by
    have other : l₂[k] ≠ l₂[m] := fun eq => by
      have := after.nodup.getElem_inj_iff.mp eq
      omega
    rw [node, if_neg other, List.getElem_append_left (by omega), List.getElem_take]
    exact ⟨rfl, rfl⟩
  have whole : (l₂.take m ++ l₂[m] :: r).length = m + 1 + r.length := by
    rw [List.length_append, front, List.length_cons]
    omega
  have row (k : Nat) (hk : k < m) :
      rows (putEntry env t i l₂[m] P) (l₂.take m ++ l₂[m] :: r) k = rows t l₂ k := by
    obtain ⟨place, same⟩ := low k hk (by omega)
    rw [rows_eq (by omega), rows_eq (by omega), place, same]
  have more := after.more
  refine ⟨l₂.take m ++ l₂[m] :: r, min u' (m - 1), ⟨⟨disk, by omega, fun k hk => ?_⟩, ?_,
    fun b mem absent => ?_, after.marks, by omega, fun k hk => ?_, fun k le lt => ?_⟩, by omega, by omega⟩
  · rcases Nat.lt_trichotomy k m with lt | rfl | gt
    · obtain ⟨place, same⟩ := low k lt hk
      rw [place, same, after.inUse k (by omega)]
      exact decide_eq_decide.mpr (by omega)
    · have here : (l₂.take k ++ l₂[k] :: r)[k] = l₂[k] := by
        rw [List.getElem_append_right (by omega)]
        simp [front]
      rw [here, node, if_pos rfl, unused]
      exact (decide_eq_false (by omega)).symm
    · have mem : (l₂.take m ++ l₂[m] :: r)[k] ∈ r := by
        rw [List.getElem_append_right (by omega), List.getElem_cons]
        simp only [front]
        rw [dif_neg (by omega)]
        exact List.getElem_mem _
      obtain ⟨absent, idle, -⟩ := rest _ mem
      have other : (l₂.take m ++ l₂[m] :: r)[k] ≠ l₂[m] := fun eq => absent (by
        rw [eq]
        exact List.getElem_mem _)
      rw [node, if_neg other, idle]
      exact (decide_eq_false (by omega)).symm
  · have stay := after.stay
    have short : (l.take (u + 1)).length ≤ m := by rw [List.length_take]; omega
    have inside : l.take (u + 1) <+: l₂.take m := by
      rw [List.prefix_take_iff]
      exact ⟨stay, short⟩
    exact inside.trans (List.prefix_append _ _)
  · rcases List.mem_append.mp mem with mem | mem
    · exact after.fresh b (List.mem_of_mem_take mem) absent
    · rcases List.mem_cons.mp mem with rfl | mem
      · exact after.fresh _ (List.getElem_mem _) absent
      · exact (rest b mem).2.2.2 absent
  · rw [row k (by omega)]
    exact after.touched k hk
  · rw [row k (by omega)]
    exact after.new k (by omega) lt

theorem writeBack_survives {l₃ : List U64} {n₃ : Nat} (strict : env.findFreeBlock = findBlock)
    (fuel : 2 ≤ env.fuel) (used : u < l.length) (before : Survives s l n u x l₃ n₃ u)
    (hk : u + 1 < l₃.length) (hm : slot p < l₃.length) (index : P.index.toNat = slot p)
    (flags : P.flags = (x.node l₃[slot p]).flags)
    (link : P.nextIndexStart = x.next l₃[slot p] ∨ u < slot p ∧ P.nextIndexStart = 0)
    (touched : slot p ≤ u → Touched (rows s l (slot p)) P.unlinked) :
    Ends (fun _ => True)
      (fun s' => ∃ l' n' u', Survives s l n u s' l' n' u' ∧ u + 1 < l'.length ∧ u' ≤ u + 1)
      (writeEntry env p P
        (putEntry env x (BitVec.ofNat 64 (u + 1)) l₃[u + 1] (newDir args (BitVec.ofNat 64 (u + 1))))) := by
  have fsx := before.toFileSystem
  have first := before.trans used (newDir_survives env args fsx hk)
  have short : (l₃.take (u + 2)).length = u + 2 := by rw [List.length_take]; omega
  have write := writeEntry_grows strict fuel first.toDisk (by omega) p P
  refine write.mono (fun _ _ => trivial) ?_
  rintro _ ⟨t, l₄, n₄, b, grown, found, rfl⟩
  have length := grown.length
  have after := first.grown grown.toGrown
  have root := after.root_slot (by omega) found
  obtain ⟨lt, rfl⟩ := List.getElem?_eq_some_iff.mp found
  have le := @usedAfter_le u args
  have front (k : Nat) (hk' : k < u + 2) (h₄ : k < l₄.length) (h₃ : k < l₃.length) :
      l₄[k] = l₃[k] := by
    have same := grown.more.getElem (show k < (l₃.take (u + 2)).length by omega)
    rw [List.getElem_take] at same
    exact same.symm
  rcases Nat.lt_or_ge u (slot p) with high | low
  · obtain ⟨r, tail, rest⟩ := exists_tail fsx hk grown.toGrown hm high (link.imp_right And.right)
    have unused : P.inUse = false := by
      rw [Entry.inUse, flags]
      exact (fsx.inUse _ hm).trans (decide_eq_false (by omega))
    obtain ⟨l', u'', survives, long, le'⟩ := writeBack_high used after (by omega) high root index
      unused tail fun b hb => by
        obtain ⟨mem, absent, same, idle⟩ := rest b hb
        refine ⟨absent, by rw [same, idle], ?_, before.fresh b mem⟩
        exact (fsx.placed b mem).trans_le grown.le
    exact ⟨l', n₄, u'', survives, by omega, by omega⟩
  · have behind := front (slot p + 1) (by omega) (by omega) (by omega)
    have keep : P.nextIndexStart = t.next l₄[slot p] := by
      rw [link.resolve_right fun wrong => by omega, after.entries.linked.next_getElem (by omega),
        fsx.entries.linked.next_getElem (by omega), behind]
    have same : P.flags = (t.node l₄[slot p]).flags := by
      have now := (after.touched (slot p) low).flags
      have earlier := (before.touched (slot p) low).flags
      rw [rows_eq lt] at now
      rw [rows_eq hm] at earlier
      exact flags.trans (earlier.trans now.symm)
    exact ⟨l₄, n₄, usedAfter args u, after.put env lt root index keep same touched
      fun high => absurd high (Nat.not_lt.mpr low), by omega, le⟩

end WriteBack

/-! ## `GemFS_mkdir` and `GemFS_CreateFile` -/

theorem mkdir_survives (strict : env.findFreeBlock = findBlock) (fuel : 514 ≤ env.fuel)
    (h : FileSystem s l n u) (long : 1 < l.length) (args : CreateArgs) :
    Ends (fun _ => True) (fun r => r.2 = BitVec.ofNat 64 (u + 1) ∧ ∃ l' n' u',
      Survives s l n u r.1 l' n' u' ∧ u + 1 < l'.length ∧ u' ≤ u + 1) (mkdir env args s) := by
  refine mkdir_ends (R := fun _ _ _ _ _ _ _ => True) strict fuel h long rfl (fun _ _ => trivial)
    (fun _ => trivial) (fun s₂ l₂ n₂ b prepared => ?_)
    fun s₂ l₂ n₂ b t l₃ n₃ o prepared grown ho _ hk => ?_
  · have length := prepared.length
    refine (registerSibling_grows strict (by omega) prepared.disk (by omega) _ _).imp ?_
    rintro s' ⟨t, l₃, n₃, o, grown, ho, eq⟩
    exact ⟨t, l₃, n₃, o, grown, ho, trivial, eq⟩
  · have length := prepared.length
    have used := h.used
    have reached := (Survives.refl h).grown prepared.toGrown
    have fs₃ := grown.fileSystem reached.toFileSystem
    have before := (reached.grown grown).trans used
      (relink_survives env (BitVec.ofNat 64 (u + 1)) fs₃ ho)
    obtain ⟨lt, rfl⟩ := List.getElem?_eq_some_iff.mp prepared.parent
    have hm : slot args.parentIndex < l₃.length := lt.trans_le grown.more.length_le
    have place : l₃[slot args.parentIndex] = l₂[slot args.parentIndex] := grown.getElem lt
    have node := @node_relink _ env _ (BitVec.ofNat 64 (u + 1)) _ _ _ _ fs₃.toDisk ho hm
    have kept := grown.kept _ (List.getElem_mem lt)
    have index : (parentAfter (s₂.node l₂[slot args.parentIndex])
        (BitVec.ofNat 64 (u + 1))).index.toNat = slot args.parentIndex := by
      rw [index_parentAfter]
      exact prepared.disk.index_getElem lt
    have flags : (parentAfter (s₂.node l₂[slot args.parentIndex])
        (BitVec.ofNat 64 (u + 1))).flags = ((relink env (BitVec.ofNat 64 (u + 1)) t l₃ o).node
          l₃[slot args.parentIndex]).flags := by
      have same : (s₂.node l₂[slot args.parentIndex]).flags =
          (t.node l₃[slot args.parentIndex]).flags := by
        rw [place]
        exact (congrArg Entry.flags kept).symm
      rw [(touched_parentAfter _ _).flags, same, node]
      split_ifs <;> rfl
    have link : (parentAfter (s₂.node l₂[slot args.parentIndex])
        (BitVec.ofNat 64 (u + 1))).nextIndexStart = (relink env (BitVec.ofNat 64 (u + 1)) t l₃ o).next
          l₃[slot args.parentIndex] ∨ u < slot args.parentIndex ∧
            (parentAfter (s₂.node l₂[slot args.parentIndex])
              (BitVec.ofNat 64 (u + 1))).nextIndexStart = 0 := by
      rw [nextIndexStart_parentAfter]
      by_cases inside : slot args.parentIndex + 1 < l₂.length
      · left
        rw [before.entries.linked.next_getElem (inside.trans_le grown.more.length_le),
          grown.getElem inside]
        exact prepared.disk.entries.linked.next_getElem inside
      · right
        exact ⟨by omega, prepared.disk.toChain.next_last lt (by omega)⟩
    have touched (low : slot args.parentIndex ≤ u) : Touched (rows s l (slot args.parentIndex))
        (parentAfter (s₂.node l₂[slot args.parentIndex]) (BitVec.ofNat 64 (u + 1))).unlinked := by
      rw [← prepared.rows_eq (by omega), rows_eq lt]
      exact (touched_parentAfter _ _).unlinked
    refine (writeBack_survives strict (by omega) used before hk hm index flags link touched).bind ?_
    rintro s' ⟨l', n', u', survives, more⟩
    exact ⟨rfl, l', n', u', survives, more⟩

/-- A file starts where the first free block was, which is none of the reserved ones. -/
theorem createFile_survives {size : U64} (strict : env.findFreeBlock = findBlock)
    (fuel : 514 ≤ env.fuel) (h : FileSystem s l n u) (long : 1 < l.length) (past : 8 ≤ n)
    (args : CreateArgs) : Ends (fun _ => True)
      (fun r => ∃ l' n' u', Survives s l n u r.1 l' n' u' ∧ u + 1 < l'.length)
      (createFile env args size s) := by
  refine createFile_ends strict fuel h long (fun _ _ => trivial) fun t s₂ l₂ n₂ ranged grown _ => ?_
  have length := grown.length
  have used := h.used
  have bound := h.le_blocks
  have reached := ((Survives.refl h).grown ranged).grown grown.toGrown
  refine (mkdir_survives strict fuel reached.toFileSystem (by omega) args).imp ?_
  rintro ⟨s₃, f⟩ ⟨-, l₃, n₃, u', made, hk, le⟩
  refine ⟨l₃, n₃, made.toDisk, hk, l₃, n₃, u', ?_, hk⟩
  have small : (BitVec.ofNat 64 n).toNat = n := Nat.mod_eq_of_lt (by omega)
  refine (reached.trans used made).put env hk (made.root_ofNat hk) (made.index_getElem hk) rfl rfl
    (fun low => by omega) fun _ _ _ => ⟨fun zero => ?_, fun seven => ?_⟩
  · have := small.symm.trans (congrArg BitVec.toNat zero)
    simp at this
    omega
  · have := small.symm.trans (congrArg BitVec.toNat seven)
    simp at this
    omega

end ChudOS.GemFS
