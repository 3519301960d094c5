import ChudOS.Filesys.Listing

/-!
# The paths of a formatted partition

Runs of `GemFS_mkdir` and `GemFS_CreateFile` that give every child of a directory another name. Each
entry has one path, at which `GemFS_Directory_to_Index` finds it after every further run.

## Main definitions

* `Fresh` — a call with a name that its directory does not have yet.
* `Volume.PathOf` — the names on the way from the root to an entry.
-/

namespace ChudOS.GemFS

open Volume LinkedChain Outcome Transition NameTree

variable [SectorAccess]

/-- A name that ends and may stand in a path, and that no entry of the directory has. -/
structure Fresh (s : Volume) (c : Creation) : Prop where
  terminated : Terminated (newDir c.args 0).name
  component : Component (letters (newDir c.args 0).name)
  new : ∀ i e, s.Holds i e → i ≠ 0 → e.parentIndex = c.args.parentIndex →
    letters e.name ≠ letters (newDir c.args 0).name

/-- The names on the way from the root to an entry. -/
inductive Volume.PathOf (s : Volume) : U64 → List (List U8) → Prop
  | root : PathOf s 0 []
  | child {i : U64} {e : Entry} {p : List (List U8)} :
      s.Holds i e → i ≠ 0 → PathOf s e.parentIndex p → PathOf s i (p ++ [letters e.name])

/-- A directory tree in which every name may stand in a path, and no directory has one twice. -/
structure WellNamed (s : Volume) (l : List U64) (n u : Nat) : Prop extends Legible s l n u where
  component : ∀ k, 0 < k → k ≤ u → Component (letters (rows s l k).name)
  distinct : Distinct (fun k => (rows s l k).parentIndex.toNat) (fun k => letters (rows s l k).name) u

variable {env : Env} {s s' : Volume} {l l' : List U64} {i : U64} {n n' m u d k : Nat} {x : List U8}
  {p : List (List U8)} {directory : Nat → U8} {scan : Fin 128 → U8} {e : Entry} {call : Creation}
  {ent : Nat → Entry}

/-! ## Lookup of a path -/

omit [SectorAccess] in
/-- The search of a directory that has the name finds the first entry with it. -/
theorem nextEntry_of_child
    (found : child (fun k => (ent k).parentIndex.toNat) (fun k => letters (ent k).name) u d x = some k) :
    nextEntry ent u d x = some k := by
  obtain ⟨pos, le, own, -⟩ := child_some found
  have some : children ent u d ≠ [] := List.ne_nil_of_mem (mem_children.mpr ⟨pos, le, own⟩)
  rw [nextEntry, if_neg fun both => some both.2, shown, if_neg some, children, List.find?_filter, ← found,
    child]
  simp

namespace WellNamed

variable (h : WellNamed s l n u)
include h

theorem older (pos : 0 < k) (le : k ≤ u) : (rows s l k).parentIndex.toNat < k :=
  (h.tree.parent k pos le).1

theorem resolve_eq (le : k ≤ u)
    (path : PathTo (fun k => (rows s l k).parentIndex.toNat) (fun k => letters (rows s l k).name) k p) :
    resolve (nextEntry (rows s l) u) 0 p = some k :=
  resolve_mono (fun _ _ _ => nextEntry_of_child)
    (resolve_pathTo h.distinct (fun _ => h.older) le path)

/-- The way to an entry goes through directories. -/
theorem through (le : k ≤ u)
    (path : PathTo (fun k => (rows s l k).parentIndex.toNat) (fun k => letters (rows s l k).name) k p) :
    Through (rows s l) u 0 p := by
  induction path with
  | root => exact through_nil
  | @child k p pos before ih =>
    have older := h.older pos le
    intro q x r eq j found
    rcases List.eq_nil_or_concat r with rfl | ⟨r, z, rfl⟩
    · obtain ⟨rfl, -⟩ := List.append_inj' eq rfl
      have at_j := (h.resolve_eq (by omega) before).symm.trans found
      rw [← Option.some.inj at_j]
      exact (h.tree.parent k pos le).2
    · refine ih (by omega) q x r ?_ j found
      rw [List.concat_eq_append, ← List.cons_append, ← List.append_assoc] at eq
      exact (List.append_inj' eq rfl).1

theorem names (le : k ≤ u)
    (path : PathTo (fun k => (rows s l k).parentIndex.toNat) (fun k => letters (rows s l k).name) k p) :
    ∀ x ∈ p, Component x := by
  induction path with
  | root => exact fun x mem => absurd mem List.not_mem_nil
  | @child k p pos before ih =>
    have older := h.older pos le
    intro x mem
    rcases List.mem_append.mp mem with old | new
    · exact ih (by omega) x old
    · rw [List.mem_singleton.mp new]
      exact h.component k pos le

end WellNamed

/-! ## Paths on the disk -/

omit [SectorAccess] in
theorem Volume.PathOf.unique {q : List (List U8)} (h : s.PathOf i p) (h' : s.PathOf i q) : p = q := by
  induction h generalizing q with
  | root =>
    cases h' with
    | root => rfl
    | child _ ne => exact absurd rfl ne
  | child holds ne _ ih =>
    cases h' with
    | root => exact absurd rfl ne
    | child holds' _ before =>
      obtain rfl := holds.unique holds'
      rw [ih before]

omit [SectorAccess] in
theorem index_pos (ne : i ≠ 0) : 0 < i.toNat :=
  Nat.pos_of_ne_zero fun zero => ne (BitVec.eq_of_toNat_eq zero)

namespace Stage

variable (h : Stage s l n u)
include h

theorem pathTo (path : s.PathOf i p) : i.toNat ≤ u ∧
    PathTo (fun k => (rows s l k).parentIndex.toNat) (fun k => letters (rows s l k).name) i.toNat p := by
  induction path with
  | root => exact ⟨Nat.zero_le u, .root⟩
  | @child i e p holds ne _ ih =>
    have row := h.unlinked_of_holds holds
    have parent : e.parentIndex = (rows s l i.toNat).parentIndex := by rw [← row]; rfl
    have name : e.name = (rows s l i.toNat).name := by rw [← row]; rfl
    rw [parent] at ih
    rw [name]
    exact ⟨(h.inUse_of_holds holds).1, .child (index_pos ne) ih.2⟩

theorem exists_pathOf (holds : s.Holds i e) : ∃ p, s.PathOf i p := by
  induction rank : i.toNat using Nat.strongRecOn generalizing i e with
  | ind k ih =>
    by_cases root : i = 0
    · rw [root]
      exact ⟨[], .root⟩
    · have row := h.unlinked_of_holds holds
      have older := (h.tree.parent i.toNat (index_pos root) (h.inUse_of_holds holds).1).1
      rw [← row] at older
      obtain ⟨e', holds', -, -⟩ := h.holds_ofNat (k := e.parentIndex.toNat)
        (older.le.trans (h.inUse_of_holds holds).1)
      rw [BitVec.ofNat_toNat, BitVec.setWidth_eq] at holds'
      obtain ⟨p, path⟩ := ih e.parentIndex.toNat (rank ▸ older) holds' rfl
      exact ⟨_, .child holds root path⟩

end Stage

/-! ## One more entry -/

namespace ChildAdded

variable (added : ChildAdded s l m u d e s' l' n')
include added

theorem wellNamed (h : WellNamed s l n u) (parent : e.parentIndex.toNat = d)
    (terminated : Terminated e.name) (component : Component (letters e.name))
    (fresh : ∀ k, 0 < k → k ≤ u → (rows s l k).parentIndex.toNat = d →
      letters (rows s l k).name ≠ letters e.name) : WellNamed s' l' n' (u + 1) where
  toLegible := added.legible h.toLegible terminated
  component k pos hk := by
    rcases Nat.lt_or_ge u k with new | old
    · obtain rfl : k = u + 1 := by omega
      rwa [added.rows_new]
    · rw [added.name_old old]
      exact h.component k pos old
  distinct j k pos hj pos' hk same named := by
    dsimp only at same named
    rcases Nat.lt_or_ge u j with new | old <;> rcases Nat.lt_or_ge u k with new' | old'
    · omega
    · obtain rfl : j = u + 1 := by omega
      rw [added.rows_new, added.parentIndex_old old', parent] at same
      rw [added.rows_new, added.name_old old'] at named
      exact absurd named.symm (fresh k pos' old' same.symm)
    · obtain rfl : k = u + 1 := by omega
      rw [added.rows_new, added.parentIndex_old old, parent] at same
      rw [added.rows_new, added.name_old old] at named
      exact absurd named (fresh j pos old same)
    · rw [added.parentIndex_old old, added.parentIndex_old old'] at same
      rw [added.name_old old, added.name_old old'] at named
      exact h.distinct j k pos old pos' old' same named

end ChildAdded

/-- An allowed call leaves the paths of the other entries as they are. -/
theorem Volume.PathOf.kept (stage : Stage s l n u) (next : Stage s' l' n' (u + 1))
    (added : ChildAdded s l m u d e s' l' n') (path : s.PathOf i p) : s'.PathOf i p := by
  induction path with
  | root => exact .root
  | @child i e p holds ne _ ih =>
    have row := stage.unlinked_of_holds holds
    have le := (stage.inUse_of_holds holds).1
    obtain ⟨e', holds', -, row'⟩ := next.holds_ofNat (k := i.toNat) (by omega)
    rw [BitVec.ofNat_toNat, BitVec.setWidth_eq] at holds'
    have parent : e'.parentIndex = e.parentIndex :=
      (congrArg Entry.parentIndex row').trans ((added.parentIndex_old le).trans
        (congrArg Entry.parentIndex row).symm)
    have name : e'.name = e.name :=
      (congrArg Entry.name row').trans ((added.name_old le).trans (congrArg Entry.name row).symm)
    rw [← name]
    exact .child holds' ne (parent ▸ ih)

/-! ## Runs -/

theorem wellNamed_formatted (kernel : env.findFreeBlock = findFreeBlock) (fuel : 514 ≤ env.fuel)
    (formatted : Formatted env s) : ∃ l, Stage s l 52 9 ∧ WellNamed s l 52 9 := by
  obtain ⟨l, stage, legible, row⟩ := formatted.rows kernel fuel
  have name (k : Nat) (hk : k < 10) : letters (rows s l k).name = (formattedRows.get ⟨k, hk⟩).name :=
    congrArg Row.name (row k hk)
  have parent (k : Nat) (hk : k < 10) :
      (rows s l k).parentIndex.toNat = (formattedRows.get ⟨k, hk⟩).parent :=
    congrArg Row.parent (row k hk)
  have nodup : (formattedRows.map fun r => (r.name, r.parent)).Nodup := by decide
  have components : ∀ r ∈ formattedRows, Component r.name := by decide
  refine ⟨l, stage, legible, fun k pos hk => ?_, fun j k pos hj pos' hk same named => ?_⟩
  · rw [name k (by omega)]
    exact components _ (List.get_mem _ _)
  · dsimp only at same named
    rw [parent j (by omega), parent k (by omega)] at same
    rw [name j (by omega), name k (by omega)] at named
    have length : (formattedRows.map fun r => (r.name, r.parent)).length = 10 := rfl
    have inj := @List.Nodup.getElem_inj_iff _ _ nodup j (by omega) k (by omega)
    refine inj.mp ?_
    rw [List.getElem_map, List.getElem_map]
    exact Prod.ext named same

/-- An allowed call with a fresh name keeps the tree and its paths. -/
theorem WellNamed.step (kernel : env.findFreeBlock = findFreeBlock) (fuel : 514 ≤ env.fuel)
    (stage : Stage s l n u) (h : WellNamed s l n u) (allowed : Allowed env s call) (fresh : Fresh s call)
    (run : call.run env s = .ok (s', i)) :
    ∃ l' n', Stage s' l' n' (u + 1) ∧ WellNamed s' l' n' (u + 1) ∧
      ∀ i p, s.PathOf i p → s'.PathOf i p := by
  obtain ⟨t, l', n', run', added⟩ := stage.childAdded kernel fuel allowed
  obtain ⟨rfl, rfl⟩ := Prod.mk.inj (Except.ok.inj (run.symm.trans run'))
  have next := (stage.creation added).toStage
  refine ⟨l', n', next, added.wellNamed h rfl fresh.terminated fresh.component fun k pos le own => ?_,
    fun i p path => path.kept stage next added⟩
  obtain ⟨e, holds, -, row⟩ := stage.holds_ofNat le
  have small := stage.toNat_ofNat le
  have ne : BitVec.ofNat 64 k ≠ 0 := fun zero => by
    rw [zero] at small
    exact absurd small (Nat.ne_of_lt pos)
  rw [← row] at own ⊢
  exact fresh.new _ e holds ne (BitVec.eq_of_toNat_eq own)

/-- The entry at a path in memory is found, where the array of the scan holds a zero after the first
name. -/
def FoundAt (env : Env) (s : Volume) (p : List (List U8)) (i : U64) : Prop :=
  ∀ directory scan, Spells directory (if directory 0 = 0x2F then 1 else 0) p →
    (∀ x ∈ p.head?, ∀ j : Fin 128, j = x.length → scan j = 0) →
    (p.map (·.length + 1)).sum ≤ env.fuel → directoryToIndex env scan directory s = .ok (s, i)

theorem WellNamed.foundAt (fuel : 514 ≤ env.fuel) (stage : Stage s l n u) (h : WellNamed s l n u)
    (path : s.PathOf i p) : FoundAt env s p i := by
  intro directory scan spelled ends room
  obtain ⟨le, path⟩ := stage.pathTo path
  cases p with
  | nil => exact spelled.elim
  | cons x p =>
    have found := directoryToIndex_eq h.toLegible fuel spelled (h.names le path) (h.through le path)
      (ends x rfl) room
    rw [h.resolve_eq le path, indexOf, BitVec.ofNat_toNat, BitVec.setWidth_eq] at found
    exact found

/-- After every run of allowed calls with fresh names each entry has one path, at which it is found,
and the next such call leaves the paths as they are. -/
theorem path_lookup (kernel : env.findFreeBlock = findFreeBlock) (fuel : 514 ≤ env.fuel)
    {x : Volume × List U64}
    (h : Reachable (creations env) (fun x c => Allowed env x.1 c ∧ Fresh x.1 c) x) :
    (∀ i e, x.1.Holds i e → ∃! p, x.1.PathOf i p) ∧ (∀ i p, x.1.PathOf i p → FoundAt env x.1 p i) ∧
      ∀ c y, Allowed env x.1 c → Fresh x.1 c → (creations env).step x c y →
        ∀ i p, x.1.PathOf i p → y.1.PathOf i p := by
  have reached : ∃ l n u, Stage x.1 l n u ∧ WellNamed x.1 l n u := by
    refine h.invariant (P := fun x => ∃ l n u, Stage x.1 l n u ∧ WellNamed x.1 l n u) ?_ ?_
    · rintro x ⟨formatted, -⟩
      obtain ⟨l, all⟩ := wellNamed_formatted kernel fuel formatted
      exact ⟨l, 52, 9, all⟩
    · rintro x c y ⟨l, n, u, stage, named⟩ ⟨allowed, fresh⟩ ⟨i, run, -⟩
      obtain ⟨l', n', stage', named', -⟩ := named.step kernel fuel stage allowed fresh run
      exact ⟨l', n', u + 1, stage', named'⟩
  obtain ⟨l, n, u, stage, named⟩ := reached
  refine ⟨fun i e holds => ?_, fun i p => named.foundAt fuel stage, ?_⟩
  · obtain ⟨p, path⟩ := stage.exists_pathOf holds
    exact ⟨p, path, fun q path' => path'.unique path⟩
  · rintro c y allowed fresh ⟨i, run, -⟩
    obtain ⟨-, -, -, -, kept⟩ := named.step kernel fuel stage allowed fresh run
    exact kept

theorem exists_shell : ∃ s, Formatted plainEnv s ∧
    s.PathOf 6 [letters (cString "bin" ·.val : Fin 128 → U8), letters (cString "shell.elf" ·.val : Fin 128 → U8)] := by
  obtain ⟨s, formatted⟩ := exists_formatted
  obtain ⟨l, stage, -, row⟩ := formatted.rows rfl plainEnv_fuel
  have entry (k : Nat) (hk : k < 10) : ∃ e, s.Holds (BitVec.ofNat 64 k) e ∧
      letters e.name = (formattedRows.get ⟨k, hk⟩).name ∧
        e.parentIndex.toNat = (formattedRows.get ⟨k, hk⟩).parent := by
    obtain ⟨e, holds, -, same⟩ := stage.holds_ofNat (k := k) (by omega)
    have row := row k hk
    rw [← same] at row
    exact ⟨e, holds, congrArg Row.name row, congrArg Row.parent row⟩
  obtain ⟨bin, holds₅, name₅, parent₅⟩ := entry 5 (by decide)
  obtain ⟨shell, holds₆, name₆, parent₆⟩ := entry 6 (by decide)
  have root : bin.parentIndex = 0 := BitVec.eq_of_toNat_eq parent₅
  have dir : shell.parentIndex = 5 := BitVec.eq_of_toNat_eq parent₆
  have at_bin : s.PathOf 5 ([] ++ [letters bin.name]) := .child holds₅ (by decide) (root ▸ .root)
  have at_shell : s.PathOf 6 ([letters bin.name] ++ [letters shell.name]) :=
    .child holds₆ (by decide) (dir ▸ at_bin)
  rw [name₅, name₆] at at_shell
  exact ⟨s, formatted, at_shell⟩

omit [SectorAccess] in
/-- The shell is found where the kernel looks for it. -/
theorem path_lookup_shell : letI : SectorAccess := .driver
    ∃ s, Formatted plainEnv s ∧
      directoryToIndex plainEnv (fun _ => 0) (cString "/bin/shell.elf") s = .ok (s, 6) := by
  obtain ⟨s, formatted, at_shell⟩ := @exists_shell .driver
  have found := (@path_lookup .driver _ rfl (@plainEnv_fuel .driver) (s, _)
    (.init ⟨formatted, rfl⟩)).2.1 6 _ at_shell
  exact ⟨s, formatted, found _ _ ⟨by decide, by decide, by decide, by decide⟩ (fun _ _ _ _ => rfl)
    (by decide)⟩

/-! ## Any path -/

/-- After every run of allowed calls with names that end, a path through directories leads where the
names lead in the tree, and nowhere where they do not. The partition stays as it is. -/
theorem path_meaning (kernel : env.findFreeBlock = findFreeBlock) (fuel : 514 ≤ env.fuel)
    {x : Volume × List U64}
    (h : Reachable (creations env)
      (fun x c => Allowed env x.1 c ∧ Terminated (newDir c.args 0).name) x) :
    ∃ l n u, Stage x.1 l n u ∧ ∀ directory scan p,
      Spells directory (if directory 0 = 0x2F then 1 else 0) p → (∀ y ∈ p, Component y) →
      Through (rows x.1 l) u 0 p → (∀ y ∈ p.head?, ∀ j : Fin 128, j = y.length → scan j = 0) →
      (p.map (·.length + 1)).sum ≤ env.fuel → directoryToIndex env scan directory x.1 =
        .ok (x.1, indexOf (resolve (nextEntry (rows x.1 l) u) 0 p)) := by
  have reached : ∃ l n u, Stage x.1 l n u ∧ Legible x.1 l n u := by
    refine h.invariant (P := fun x => ∃ l n u, Stage x.1 l n u ∧ Legible x.1 l n u) ?_ ?_
    · rintro x ⟨formatted, -⟩
      obtain ⟨l, stage, legible, -⟩ := formatted.rows kernel fuel
      exact ⟨l, 52, 9, stage, legible⟩
    · rintro x c y ⟨l, n, u, stage, legible⟩ ⟨allowed, terminated⟩ ⟨i, run, -⟩
      obtain ⟨t, l', n', run', added⟩ := stage.childAdded kernel fuel allowed
      obtain ⟨eq, -⟩ := Prod.mk.inj (Except.ok.inj (run.symm.trans run'))
      rw [eq]
      exact ⟨l', n', u + 1, (stage.creation added).toStage, added.legible legible terminated⟩
  obtain ⟨l, n, u, stage, legible⟩ := reached
  refine ⟨l, n, u, stage, fun directory scan p spelled names through ends room => ?_⟩
  cases p with
  | nil => exact spelled.elim
  | cons y p => exact directoryToIndex_eq legible fuel spelled names through (ends y rfl) room

/-- The names in `/dev/zero/ROOT`. -/
def zeroPath : List (List U8) :=
  [[0x64, 0x65, 0x76], [0x7a, 0x65, 0x72, 0x6f], [0x52, 0x4f, 0x4f, 0x54]]

theorem resolve_zeroPath (formatted : Formatted plainEnv s) (stage : Stage s l n u) :
    Through (rows s l) u 0 zeroPath ∧ resolve (nextEntry (rows s l) u) 0 zeroPath = some 0 := by
  obtain ⟨l', stage', -, row⟩ := formatted.rows rfl plainEnv_fuel
  obtain rfl : l = l' := stage.entries.linked.unique stage'.entries.linked
  obtain rfl : u = 9 := by have := stage.length; have := stage'.length; omega
  have same (k : Nat) (hk : k ≤ 9) : rowOf (rows s l k) = rowOf (formattedEntries.getD k zeroEntry) := by
    have lt : k < formattedEntries.length := Nat.lt_succ_of_le hk
    rw [row k (Nat.lt_succ_of_le hk), List.getD_eq_getElem _ _ lt]
    exact List.getElem_map rowOf
  have next := nextEntry_congr same
  have dir (k : Nat) (hk : k ≤ 9) : (rows s l k).isDirectory =
      (formattedEntries.getD k zeroEntry).isDirectory := congrArg Row.isDirectory (same k hk)
  refine ⟨through_cons ((dir 0 (by decide)).trans (by decide)) fun k first => ?_, ?_⟩
  · rw [next] at first
    obtain rfl : 1 = k := Option.some.inj (Eq.trans (by decide) first)
    refine through_cons ((dir 1 (by decide)).trans (by decide)) fun k second => ?_
    rw [next] at second
    obtain rfl : 2 = k := Option.some.inj (Eq.trans (by decide) second)
    exact through_cons ((dir 2 (by decide)).trans (by decide)) fun _ _ => through_nil
  · rw [next]
    decide

omit [SectorAccess] in
/-- In the directory of zeros, which has no entry, the root is found under its name. -/
theorem path_meaning_root : letI : SectorAccess := .driver
    ∃ s, Formatted plainEnv s ∧
      directoryToIndex plainEnv (fun _ => 0) (cString "/dev/zero/ROOT") s = .ok (s, 0) := by
  obtain ⟨s, formatted⟩ := @exists_formatted .driver
  obtain ⟨l, n, u, stage, found⟩ := @path_meaning .driver _ rfl (@plainEnv_fuel .driver) (s, _)
    (.init ⟨formatted, rfl⟩)
  obtain ⟨through, root⟩ := @resolve_zeroPath .driver s l n u formatted stage
  have led := found (cString "/dev/zero/ROOT") (fun _ => 0) zeroPath
    ⟨by decide, by decide, by decide, by decide, by decide, by decide⟩ (by decide) through
    (fun _ _ _ _ => rfl) (by decide)
  rw [root] at led
  exact ⟨s, formatted, led⟩

end ChudOS.GemFS
