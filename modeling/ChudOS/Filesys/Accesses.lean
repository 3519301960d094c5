import ChudOS.Filesys.DirectoryTree
import ChudOS.Filesys.SiblingLists

/-!
# Runs of calls on entries

Runs on a formatted partition that create directories and files, look entries up and rewrite them.

## Main definitions

* `Access` — a call on an entry.
* `Permitted` — the calls whose parents are directories and that keep the links.
* `accesses` — the partition as a transition system.
-/

namespace ChudOS.GemFS

open Volume Outcome Transition

variable [SectorAccess]

inductive Access
  | create (c : Creation)
  | readEntry (i : U64)
  | writeEntry (i : U64) (e : Entry)

def Access.run (env : Env) : Access → Volume → Except Stop Volume
  | create c, s => do
    let (s, _) ← c.run env s
    return s
  | readEntry i, s => do
    let (s, _) ← GemFS.readEntry env i s
    return s
  | writeEntry i e, s => GemFS.writeEntry env i e s

/-- The entry with the index `i` is in use, and is `e`. -/
def Volume.InUse (s : Volume) (i : U64) (e : Entry) : Prop := s.Holds i e ∧ e.inUse = true

/-- The fields that an entry in use keeps when it is written. -/
structure SameLinks (e e' : Entry) : Prop where
  index : e.index = e'.index
  flags : e.flags = e'.flags
  start : e.start = e'.start
  siblingIndex : e.siblingIndex = e'.siblingIndex
  nextIndexStart : e.nextIndexStart = e'.nextIndexStart

/-- A call that finds a free block with a bit of its own whenever it takes one. A parent is a
directory in use, and an entry that is written is in use and keeps its links. -/
def Permitted (env : Env) (s : Volume) : Access → Prop
  | .create c => Allowed env s c
  | .readEntry i => readEntry env.strict i s ≠ .error .noBlock
  | .writeEntry i e => ∃ e', s.InUse i e' ∧ SameLinks e e'

def accesses (env : Env) : LTS Volume Access where
  init := Formatted env
  step s a t := a.run env s = .ok t

variable {env : Env} {s s' : Volume} {i : U64} {n n' u : Nat} {l : List U64} {a : Access}
  {call : Creation} {e : Entry}

theorem Directory.populated (h : Directory s l n u) : Populated s l n u where
  toFileSystem := h.toFileSystem
  lists d hd dir := by
    have small := h.tree.small
    refine ⟨_, fun j hj => ?_, h.tree.lists d hd dir⟩
    obtain ⟨k, hk, rfl⟩ := List.mem_map.mp hj
    have le := (mem_children.mp hk).2.1
    rwa [h.tree.toNat_ofNat (by omega)]

theorem FileSystem.inUse_iff (h : FileSystem s l n u) :
    s.InUse i e ↔ i.toNat ≤ u ∧ ∃ hk : i.toNat < l.length, s.node l[i.toNat] = e := by
  have used := h.used
  rw [InUse, h.toChain.holds_iff]
  constructor
  · rintro ⟨⟨hk, rfl⟩, inUse⟩
    rw [h.inUse _ hk] at inUse
    exact ⟨of_decide_eq_true inUse, hk, rfl⟩
  · rintro ⟨low, hk, rfl⟩
    exact ⟨⟨hk, rfl⟩, (h.inUse _ hk).trans (decide_eq_true low)⟩

/-! ## One call -/

namespace Populated

/-- Whatever an allowed call creates, the blocks taken follow the marked ones. -/
theorem create (kernel : env.findFreeBlock = findFreeBlock) (fuel : 514 ≤ env.fuel)
    (h : Populated s l n u) (long : 1 < l.length) (allowed : Allowed env s call) :
    ∃ s' i l' n', call.run env s = .ok (s', i) ∧ Advanced s l n u s' l' n' (u + 1) ∧
      n + call.size.toNat < n' := by
  obtain ⟨⟨e, holds, used, dir⟩, inUse, kind, name, free⟩ := allowed
  obtain ⟨low, hk, rfl⟩ := h.inUse_iff.mp ⟨holds, used⟩
  have hp : call.args.parentIndex = BitVec.ofNat 64 call.args.parentIndex.toNat := by simp
  have isDir : (rows s l call.args.parentIndex.toNat).isDirectory = true := by
    rw [rows_eq hk]
    exact dir
  have stop {k : Nat} (c : Stop) (hc : OutOfBlocks n k c) : call.run env.strict s ≠ .error c := by
    rw [hc.1]
    exact free
  cases call with
  | mkdir args =>
    have made := @mkdir_advanced _ env.strict s n u _ l args rfl fuel h long low hp isDir inUse name
    obtain ⟨⟨s', i⟩, eq, -, l', n', advanced, lt, -⟩ := made.ok_of_ne stop
    exact ⟨s', i, l', n', (mkdir_follows kernel args s).ok eq, advanced, lt⟩
  | createFile args size =>
    have made := @createFile_advanced _ env.strict s n u _ l args size rfl fuel h long low hp isDir
      inUse kind name
    obtain ⟨⟨s', i⟩, eq, l', n', advanced, lt⟩ := made.ok_of_ne stop
    have le := advanced.le
    refine ⟨s', i, l', n', (createFile_follows kernel args size s).ok eq, advanced, ?_⟩
    change n + size.toNat < n'
    omega

/-- An entry that is written keeps its block, and so do all others their entries. -/
theorem write (fuel : 0 < env.fuel) (h : Populated s l n u) (ok : Permitted env s (.writeEntry i e)) :
    ∃ (hk : i.toNat < l.length), writeEntry env i e s = .ok (putEntry env s i l[i.toNat] e) ∧
      Advanced s l n u (putEntry env s i l[i.toNat] e) l n u := by
  obtain ⟨e', inUse, same⟩ := ok
  obtain ⟨low, hk, rfl⟩ := h.inUse_iff.mp inUse
  have write := @Disk.writeEntry_eq _ env s i.toNat n e l h.toDisk fuel hk
  have advanced := h.put_advanced env low hk same.index same.flags (fun _ => same.start)
    same.siblingIndex same.nextIndexStart
  rw [BitVec.ofNat_toNat, BitVec.setWidth_eq] at write advanced
  exact ⟨hk, write, advanced⟩

/-- What one call keeps. -/
theorem access (kernel : env.findFreeBlock = findFreeBlock) (fuel : 514 ≤ env.fuel)
    (h : Populated s l n u) (long : 1 < l.length) (ok : Permitted env s a) :
    ∃ s' l' n' u', a.run env s = .ok s' ∧ Advanced s l n u s' l' n' u' ∧ 1 < l'.length ∧
      ∀ args size, a = .create (.createFile args size) → n + size.toNat < n' := by
  cases a with
  | create c =>
    obtain ⟨s', i, l', n', eq, advanced, lt⟩ := h.create kernel fuel long ok
    have used := advanced.used
    refine ⟨s', l', n', u + 1, by rw [Access.run, eq]; rfl, advanced, by omega, ?_⟩
    rintro args size ⟨⟩
    exact lt
  | readEntry i =>
    have look := @readEntry_grows _ env.strict s n l rfl (by change 2 ≤ env.fuel; omega) h.toDisk long i
    obtain ⟨⟨s', e⟩, eq, l', n', -, grown, -⟩ := look.ok_of_ne fun c hc => by
      rw [hc.1]
      exact ok
    have eq' := (readEntry_follows kernel i s).ok eq
    have length := grown.length
    exact ⟨s', l', n', u, by rw [Access.run, eq']; rfl, grown.advanced h, by omega, nofun⟩
  | writeEntry i e =>
    obtain ⟨hk, write, advanced⟩ := h.write (by omega) ok
    exact ⟨_, l, n, u, write, advanced, long, nofun⟩

end Populated

/-! ## Runs -/

/-- The runs from a given partition on. -/
def accessesFrom (env : Env) (s : Volume) : LTS Volume Access := { accesses env with init := (· = s) }

theorem exists_advanced (kernel : env.findFreeBlock = findFreeBlock) (fuel : 514 ≤ env.fuel)
    (h : Populated s l n u) (long : 1 < l.length)
    (run : Reachable (accessesFrom env s) (Permitted env) s') :
    ∃ l' n' u', Advanced s l n u s' l' n' u' ∧ 1 < l'.length := by
  refine run.invariant (P := fun s' => ∃ l' n' u', Advanced s l n u s' l' n' u' ∧ 1 < l'.length)
    ?_ ?_
  · rintro _ rfl
    exact ⟨l, n, u, (Grown.refl h.toDisk).advanced h, long⟩
  · rintro t a t' ⟨l', n', u', advanced, long'⟩ ok step
    obtain ⟨t'', l'', n'', u'', eq, again, long'', -⟩ :=
      advanced.toPopulated.access kernel fuel long' ok
    obtain rfl := Except.ok.inj (step.symm.trans eq)
    exact ⟨l'', n'', u'', advanced.trans h.used again, long''⟩

theorem exists_populated (kernel : env.findFreeBlock = findFreeBlock) (fuel : 514 ≤ env.fuel)
    (h : Reachable (accesses env) (Permitted env) s) :
    ∃ l n u, Populated s l n u ∧ 1 < l.length ∧ Faithful s l := by
  refine h.invariant (P := fun s => ∃ l n u, Populated s l n u ∧ 1 < l.length ∧ Faithful s l) ?_ ?_
  · intro s formatted
    obtain ⟨l, stage⟩ := formatted.stage kernel fuel
    have length := stage.length
    exact ⟨l, 52, 9, stage.toDirectory.populated, by omega, stage.faithful⟩
  · rintro s a t ⟨l, n, u, populated, long, faithful⟩ ok step
    obtain ⟨t', l', n', u', eq, advanced, long', -⟩ := populated.access kernel fuel long ok
    obtain rfl := Except.ok.inj (step.symm.trans eq)
    exact ⟨l', n', u', advanced.toPopulated, long', advanced.faithful faithful⟩

end ChudOS.GemFS
