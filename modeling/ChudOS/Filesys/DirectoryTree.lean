import ChudOS.Filesys.Format
import ChudOS.Library.Transition

/-!
# The directory tree of a formatted partition

Runs of `GemFS_mkdir` and `GemFS_CreateFile` on a formatted partition, whose directories link their
entries in the order of their creation.

## Main definitions

* `Holds` — the entry with an index, found along the chain of entries.
* `SiblingChain` — a list of entries linked by `Sibling_Index`.
* `creations` — the partition as a transition system, beside the indexes that the calls returned.
-/

namespace ChudOS.GemFS

open Volume LinkedChain Outcome Transition

variable [SectorAccess]

/-- The entry with an index, as a walk along the chain of entries finds it. -/
def Volume.Holds (s : Volume) (i : U64) (e : Entry) : Prop :=
  ∃ l, Linked s.next 0 1 l ∧ l[i.toNat]?.map s.node = some e

/-- The entries `c` are linked by `Sibling_Index` from the first one on, and the last one has 0. -/
def SiblingChain (s : Volume) : U64 → List U64 → Prop
  | i, [] => i = 0
  | i, j :: c => i = j ∧ j ≠ 0 ∧ ∃ e, s.Holds j e ∧ SiblingChain s e.siblingIndex c

inductive Creation
  | mkdir (args : CreateArgs)
  | createFile (args : CreateArgs) (size : U64)

namespace Creation

def args : Creation → CreateArgs
  | mkdir args | createFile args _ => args

def isMkdir : Creation → Bool
  | mkdir _ => true
  | createFile _ _ => false

/-- How many blocks the call reserves for the contents. -/
def size : Creation → U64
  | mkdir _ => 0
  | createFile _ size => size

/-- The entry that the call creates after `u` others, where block `n` is the first free one. -/
def entry (c : Creation) (n u : Nat) : Entry :=
  { newDir c.args (BitVec.ofNat 64 (u + 1)) with
    start := if c.isMkdir then 0 else BitVec.ofNat 64 n
    size := c.size }

def run (env : Env) : Creation → Volume → Except Stop (Volume × U64)
  | mkdir args => GemFS.mkdir env args
  | createFile args size => GemFS.createFile env args size

end Creation

/-- A call with an existing directory as its parent, that finds a free block with a bit of its own
whenever it takes one. -/
structure Allowed (env : Env) (s : Volume) (c : Creation) : Prop where
  parent : ∃ e, s.Holds c.args.parentIndex e ∧ e.inUse = true ∧ e.isDirectory = true
  inUse : c.args.flags.getLsbD 0 = true
  kind : c.args.flags.getLsbD 4 = c.isMkdir
  name : c.args.nameLen.toNat ≤ 128
  free : c.run env.strict s ≠ .error .noBlock

/-- The partition from the end of the formatter on, whose own calls return 1 to 9, with the indexes
that were returned so far. -/
def creations (env : Env) : LTS (Volume × List U64) Creation where
  init x := Formatted env x.1 ∧ x.2 = [1, 2, 3, 4, 5, 6, 7, 8, 9]
  step x c y := ∃ i, c.run env x.1 = .ok (y.1, i) ∧ y.2 = x.2 ++ [i]

/-- The entry `i` is linked in the directory `d`. -/
def InDirectory (s : Volume) (d i : U64) : Prop :=
  ∃ e c, s.Holds d e ∧ e.inUse = true ∧ e.isDirectory = true ∧ SiblingChain s e.start c ∧ i ∈ c

/-- The entries in use, which were created in the order `log`, form a tree. -/
structure TreeFormed (s : Volume) (log : List U64) : Prop where
  nodup : log.Nodup
  mem_log : ∀ i, i ∈ log ↔ i ≠ 0 ∧ ∃ e, s.Holds i e ∧ e.inUse = true
  chain : ∀ d e, s.Holds d e → e.inUse = true → e.isDirectory = true →
    ∃ c, SiblingChain s e.start c ∧ c.Sublist log ∧
      ∀ i, i ∈ c ↔ i ≠ 0 ∧ ∃ e', s.Holds i e' ∧ e'.inUse = true ∧ e'.parentIndex = d
  one : ∀ i e, s.Holds i e → e.inUse = true → i ≠ 0 → ∃! d, InDirectory s d i

variable {env : Env} {s s' : Volume} {i j d : U64} {k n n' u p : Nat} {e e' : Entry}
  {l l' c c' log : List U64} {call : Creation}

/-! ## Entries by index -/

omit [SectorAccess] in
theorem Chain.holds_iff (h : Chain s l) :
    s.Holds i e ↔ ∃ hk : i.toNat < l.length, s.node l[i.toNat] = e := by
  constructor
  · rintro ⟨l', linked, found⟩
    obtain rfl := linked.unique h.entries.linked
    obtain ⟨b, at_i, rfl⟩ := Option.map_eq_some_iff.mp found
    obtain ⟨hk, rfl⟩ := List.getElem?_eq_some_iff.mp at_i
    exact ⟨hk, rfl⟩
  · rintro ⟨hk, rfl⟩
    exact ⟨l, h.entries.linked, by simp [hk]⟩

theorem Disk.readEntry_holds (h : Disk s l n) (fuel : 0 < env.fuel) (holds : s.Holds i e) :
    readEntry env i s = .ok (s, e) := by
  obtain ⟨lt, rfl⟩ := h.holds_iff.mp holds
  have eq := @Disk.readEntry_eq _ env _ _ _ _ h fuel lt
  rwa [BitVec.ofNat_toNat, BitVec.setWidth_eq] at eq

omit [SectorAccess] in
theorem Volume.Holds.unique (h : s.Holds i e) (h' : s.Holds i e') : e = e' := by
  obtain ⟨l, linked, found⟩ := h
  obtain ⟨l', linked', found'⟩ := h'
  obtain rfl := linked.unique linked'
  exact Option.some.inj (found.symm.trans found')

omit [SectorAccess] in
theorem SiblingChain.unique (h : SiblingChain s i c) (h' : SiblingChain s i c') : c = c' := by
  induction c generalizing i c' with
  | nil =>
    cases c' with
    | nil => rfl
    | cons j c' => exact absurd (h'.1.symm.trans h) h'.2.1
  | cons j c ih =>
    cases c' with
    | nil => exact absurd (h.1.symm.trans h') h.2.1
    | cons j' c' =>
      obtain ⟨rfl, -, e, holds, rest⟩ := h
      obtain ⟨rfl, -, e', holds', rest'⟩ := h'
      obtain rfl := holds.unique holds'
      rw [ih rest rest']

/-- The list of a directory among the rows, on the disk. -/
theorem siblingChain_of_linked (h : Disk s l n) {cs : List Nat} (inside : ∀ c ∈ cs, c < l.length)
    (links : Linked (sibling (rows s l)) 0 i (cs.map (BitVec.ofNat 64))) :
    SiblingChain s i (cs.map (BitVec.ofNat 64)) := by
  induction cs generalizing i with
  | nil => exact linked_nil.mp links
  | cons k cs ih =>
    obtain ⟨rfl, live, rest⟩ := linked_cons.mp links
    have hk := inside k (by simp)
    have small : (BitVec.ofNat 64 k).toNat = k := Nat.mod_eq_of_lt (hk.trans h.short)
    rw [sibling_rows hk small] at rest
    exact ⟨rfl, live, s.node l[k], h.toChain.holds_iff.mpr ⟨by rwa [small], by simp only [small]⟩,
      ih (fun c hc => inside c (by simp [hc])) rest⟩

/-! ## One call -/

namespace Stage

theorem holds_iff (h : Stage s l n u) :
    s.Holds i e ↔ ∃ hk : i.toNat < l.length, s.node l[i.toNat] = e := h.toChain.holds_iff

theorem inUse_of_holds (h : Stage s l n u) (holds : s.Holds i e) : i.toNat ≤ u ∧ e.inUse = true := by
  obtain ⟨hk, rfl⟩ := h.holds_iff.mp holds
  have length := h.length
  rw [h.inUse _ hk]
  exact ⟨by omega, decide_eq_true (by omega)⟩

/-- An allowed call adds an entry to a directory. A file begins at the first free block. -/
theorem childAdded (kernel : env.findFreeBlock = findFreeBlock) (fuel : 514 ≤ env.fuel)
    (h : Stage s l n u) (allowed : Allowed env s call) :
    ∃ s' l' n', call.run env s = .ok (s', BitVec.ofNat 64 (u + 1)) ∧
      ChildAdded s l (min capacity (n + call.size.toNat)) u call.args.parentIndex.toNat
        (call.entry n u) s' l' n' := by
  obtain ⟨parent, inUse, kind, name, free⟩ := allowed
  obtain ⟨e, holds, -, dir⟩ := parent
  obtain ⟨hk, rfl⟩ := h.holds_iff.mp holds
  have length := h.length
  have long := h.first.length_le
  have hp := (BitVec.ofNat_toNat 64 call.args.parentIndex).symm
  rw [BitVec.setWidth_eq] at hp
  have isDir : (rows s l call.args.parentIndex.toNat).isDirectory = true := by
    rw [rows_eq hk]
    exact dir
  have stop {k : Nat} (e : Stop) (he : OutOfBlocks n k e) : call.run env.strict s ≠ .error e := by
    rw [he.1]
    exact free
  cases call with
  | mkdir args =>
    obtain ⟨⟨s', f⟩, eq, rfl, l', n', added⟩ := Ends.ok_of_ne (@mkdir_directory _ env.strict s n u _ l
      args rfl fuel h.toDirectory (by simp at long; omega) (by omega) hp isDir inUse name) stop
    have none : min capacity (n + (0 : U64).toNat) = n := Nat.min_eq_right h.le
    exact ⟨s', l', n', (mkdir_follows kernel args s).ok eq, none.symm ▸ added⟩
  | createFile args size =>
    obtain ⟨⟨s', f⟩, eq, rfl, l', n', added⟩ := Ends.ok_of_ne (@createFile_directory _ env.strict s n u
      _ l args size rfl fuel h.toDirectory (by simp at long; omega) (by omega) hp isDir inUse kind
      name) stop
    exact ⟨s', l', n', (createFile_follows kernel args size s).ok eq, added⟩

/-- An allowed call creates the next entry. -/
theorem creation (h : Stage s l n u)
    (added : ChildAdded s l (min capacity (n + call.size.toNat)) u p (call.entry n u) s' l' n') :
    NextStage s l u (call.entry n u) s' l' n' := by
  have le := h.le
  have few := h.le_blocks
  have past := h.past
  refine added.nextStage h (by omega) ?_
  cases call with
  | mkdir args => exact apart_of_size (show (0 : U64) ≠ 1 by decide)
  | createFile args size =>
    -- the file starts past the lost block
    have start : (BitVec.ofNat 64 n).toNat = n := Nat.mod_eq_of_lt (by omega)
    refine fun _ => ⟨fun eq => ?_, fun eq => ?_⟩ <;>
      · have := start.symm.trans (congrArg BitVec.toNat eq)
        simp at this
        omega

/-! ## The tree -/

theorem toNat_ofNat (h : Stage s l n u) (hk : k ≤ u) : (BitVec.ofNat 64 k).toNat = k := by
  have := h.length
  exact Nat.mod_eq_of_lt ((show k < l.length by omega).trans h.short)

theorem holds_ofNat (h : Stage s l n u) (hk : k ≤ u) :
    ∃ e, s.Holds (BitVec.ofNat 64 k) e ∧ e.inUse = true ∧ e.unlinked = rows s l k := by
  have lt : k < l.length := by have := h.length; omega
  have holds : s.Holds (BitVec.ofNat 64 k) (s.node l[k]) :=
    h.holds_iff.mpr ⟨by rwa [h.toNat_ofNat hk], by simp only [h.toNat_ofNat hk]⟩
  exact ⟨_, holds, (h.inUse_of_holds holds).2, (rows_eq lt).symm⟩

theorem unlinked_of_holds (h : Stage s l n u) (holds : s.Holds i e) :
    e.unlinked = rows s l i.toNat := by
  obtain ⟨hk, rfl⟩ := h.holds_iff.mp holds
  exact (rows_eq hk).symm

/-- The list of a directory. -/
theorem siblingChain (h : Stage s l n u) (holds : s.Holds d e) (dir : e.isDirectory = true) :
    SiblingChain s e.start ((children (rows s l) u d.toNat).map (BitVec.ofNat 64)) := by
  have le := (h.inUse_of_holds holds).1
  have row := h.unlinked_of_holds holds
  have isDir : (rows s l d.toNat).isDirectory = true := by rw [← row]; exact dir
  have lists := h.tree.lists d.toNat le isDir
  rw [Lists, ← row] at lists
  refine siblingChain_of_linked h.toDisk (fun k hk => ?_) lists
  have := (mem_children.mp hk).2.1
  have := h.length
  omega

theorem mem_siblingChain (h : Stage s l n u) :
    i ∈ (children (rows s l) u d.toNat).map (BitVec.ofNat 64) ↔
      i ≠ 0 ∧ ∃ e, s.Holds i e ∧ e.inUse = true ∧ e.parentIndex = d := by
  rw [List.mem_map]
  constructor
  · rintro ⟨k, hk, rfl⟩
    obtain ⟨pos, le, parent⟩ := mem_children.mp hk
    obtain ⟨e, holds, inUse, row⟩ := h.holds_ofNat le
    refine ⟨fun zero => ?_, e, holds, inUse, BitVec.eq_of_toNat_eq ?_⟩
    · have := h.toNat_ofNat le
      rw [zero] at this
      simp at this
      omega
    · rw [← parent, ← row]
      rfl
  · rintro ⟨ne, e, holds, -, rfl⟩
    have row := h.unlinked_of_holds holds
    refine ⟨i.toNat, mem_children.mpr ⟨?_, (h.inUse_of_holds holds).1, ?_⟩, by simp⟩
    · exact Nat.pos_of_ne_zero fun zero => ne (BitVec.eq_of_toNat_eq zero)
    · rw [← row]
      rfl

theorem inDirectory_iff (h : Stage s l n u) (holds : s.Holds i e) (ne : i ≠ 0) :
    InDirectory s d i ↔ d = e.parentIndex := by
  constructor
  · rintro ⟨e', c, holds', -, dir, links, mem⟩
    obtain rfl := links.unique (h.siblingChain holds' dir)
    obtain ⟨-, e'', holds'', -, parent⟩ := h.mem_siblingChain.mp mem
    rw [holds.unique holds'', parent]
  · rintro rfl
    have row := h.unlinked_of_holds holds
    have pos : 0 < i.toNat := Nat.pos_of_ne_zero fun zero => ne (BitVec.eq_of_toNat_eq zero)
    obtain ⟨le, inUse⟩ := h.inUse_of_holds holds
    obtain ⟨lt, dir⟩ := h.tree.parent i.toNat pos le
    rw [← row] at lt dir
    change e.parentIndex.toNat < _ at lt
    change (rows s l e.parentIndex.toNat).isDirectory = true at dir
    obtain ⟨e', holds', inUse', row'⟩ := h.holds_ofNat (k := e.parentIndex.toNat) (by omega)
    rw [BitVec.ofNat_toNat, BitVec.setWidth_eq] at holds'
    rw [← row'] at dir
    exact ⟨e', _, holds', inUse', dir, h.siblingChain holds' dir,
      h.mem_siblingChain.mpr ⟨ne, e, holds, inUse, rfl⟩⟩

theorem treeFormed (h : Stage s l n u) :
    TreeFormed s ((List.range' 1 u).map (BitVec.ofNat 64)) where
  nodup := by
    refine List.Nodup.map_on (fun a ha b hb eq => ?_) List.nodup_range'
    have := List.mem_range'_1.mp ha
    have := List.mem_range'_1.mp hb
    rw [← h.toNat_ofNat (show a ≤ u by omega), eq, h.toNat_ofNat (by omega)]
  mem_log i := by
    rw [List.mem_map]
    constructor
    · rintro ⟨k, hk, rfl⟩
      have := List.mem_range'_1.mp hk
      obtain ⟨e, holds, inUse, -⟩ := h.holds_ofNat (k := k) (by omega)
      refine ⟨fun zero => ?_, e, holds, inUse⟩
      have := h.toNat_ofNat (show k ≤ u by omega)
      rw [zero] at this
      simp at this
      omega
    · rintro ⟨ne, e, holds, -⟩
      have := (h.inUse_of_holds holds).1
      have pos : 0 < i.toNat := Nat.pos_of_ne_zero fun zero => ne (BitVec.eq_of_toNat_eq zero)
      exact ⟨i.toNat, List.mem_range'_1.mpr (by omega), by simp⟩
  chain d e holds _ dir := ⟨_, h.siblingChain holds dir, List.filter_sublist.map _,
    fun _ => h.mem_siblingChain⟩
  one i e holds _ ne :=
    ⟨e.parentIndex, (h.inDirectory_iff holds ne).mpr rfl, fun _ => (h.inDirectory_iff holds ne).mp⟩

end Stage

/-! ## Runs -/

/-- The entries are created in the order of their indexes. -/
theorem exists_stage (kernel : env.findFreeBlock = findFreeBlock) (fuel : 514 ≤ env.fuel)
    {x : Volume × List U64} (h : Reachable (creations env) (fun x => Allowed env x.1) x) :
    ∃ l n u, Stage x.1 l n u ∧ x.2 = (List.range' 1 u).map (BitVec.ofNat 64) := by
  refine h.invariant (P := fun x => ∃ l n u, Stage x.1 l n u ∧
    x.2 = (List.range' 1 u).map (BitVec.ofNat 64)) ?_ ?_
  · rintro ⟨s, log⟩ ⟨formatted, rfl⟩
    obtain ⟨l, stage⟩ := formatted.stage kernel fuel
    exact ⟨l, 52, 9, stage, rfl⟩
  · rintro ⟨s, log⟩ call ⟨s', log'⟩ ⟨l, n, u, stage, rfl⟩ allowed ⟨i, eq, rfl⟩
    obtain ⟨t, l', n', eq', added⟩ := stage.childAdded kernel fuel allowed
    obtain ⟨rfl, rfl⟩ := Prod.mk.inj (Except.ok.inj (eq.symm.trans eq'))
    refine ⟨l', n', u + 1, (stage.creation added).toStage, ?_⟩
    rw [List.range'_1_concat, List.map_append, Nat.add_comm 1 u]
    rfl

/-- After every run of allowed calls the entries form a tree, and the next allowed call returns the
index of the entry that it creates. -/
theorem directory_tree (kernel : env.findFreeBlock = findFreeBlock) (fuel : 514 ≤ env.fuel)
    {x : Volume × List U64} (h : Reachable (creations env) (fun x => Allowed env x.1) x) :
    TreeFormed x.1 x.2 ∧ ∀ call, Allowed env x.1 call → ∃ s' i e,
      call.run env x.1 = .ok (s', i) ∧ (∀ e, ¬ x.1.Holds i e) ∧ s'.Holds i e ∧ e.inUse = true ∧
        e.index = i ∧ e.parentIndex = call.args.parentIndex ∧
          e.name = (newDir call.args i).name ∧ e.isDirectory = call.isMkdir := by
  obtain ⟨l, n, u, stage, log⟩ := exists_stage kernel fuel h
  refine ⟨log ▸ stage.treeFormed, fun call allowed => ?_⟩
  obtain ⟨s', l', n', eq, added⟩ := stage.childAdded kernel fuel allowed
  have next := stage.creation added
  obtain ⟨e, holds, inUse, row⟩ := next.holds_ofNat (Nat.le_refl (u + 1))
  have small := next.toNat_ofNat (Nat.le_refl (u + 1))
  rw [next.new] at row
  have index := congrArg Entry.index row
  have parent := congrArg Entry.parentIndex row
  have name := congrArg Entry.name row
  have kind := congrArg Entry.isDirectory row
  refine ⟨s', _, e, eq, fun e' old => ?_, holds, inUse, index, parent, name,
    kind.trans allowed.kind⟩
  have := (stage.inUse_of_holds old).1
  omega

/-- A partition of 8192 sectors that hold zeros. -/
def blankPartition : Volume where
  sectors _ _ := 0
  lbaStart := 1024
  sectorCount := 0x2000
  main := mainOf fun _ => 0
  written _ := zeroEntry

omit [SectorAccess] in
theorem zeroed_blankPartition : Zeroed blankPartition := ⟨by decide, fun _ _ _ _ => rfl⟩

def plainEnv : Env := .kernel (fun _ => zeroEntry) (fun _ _ => 0) 514

theorem plainEnv_fuel : 514 ≤ plainEnv.fuel := Nat.le_refl 514

theorem exists_formatted : ∃ s, Formatted plainEnv s := by
  obtain ⟨t, l, eq, -⟩ := @formatPartition_stage _ plainEnv.strict blankPartition rfl
    plainEnv_fuel zeroed_blankPartition (cString "")
  exact ⟨t, blankPartition, _, zeroed_blankPartition, (formatPartition_follows rfl _ _).ok eq⟩

/-- After the formatter there is a directory in which a file can be made. -/
theorem exists_allowed {s : Volume} (formatted : Formatted plainEnv s) (size : U64)
    (room : size.toNat ≤ 457) : ∃ args, Allowed plainEnv s (.createFile args size) := by
  obtain ⟨l, stage⟩ := formatted.stage rfl plainEnv_fuel
  obtain ⟨lt, dir⟩ := stage.tree.parent 9 (by decide) (Nat.le_refl 9)
  obtain ⟨e, holds, used, row⟩ := stage.holds_ofNat (k := (rows s l 9).parentIndex.toNat) (by omega)
  have inUse : (0b00001111 : U8).getLsbD 0 = true := by decide
  have file : (0b00001111 : U8).getLsbD 4 = false := by decide
  have name : (2 : U64).toNat ≤ 128 := by decide
  have length := stage.length
  generalize (rows s l 9).parentIndex.toNat = p at lt dir holds row
  obtain ⟨s', l', n', run, -⟩ := @createFile_step _ plainEnv.strict s 52 9 p l
    ⟨cString "a", 2, 0b00001111, BitVec.ofNat 64 p⟩ rfl plainEnv_fuel size stage.toDirectory
    (by omega) (by omega) rfl dir inUse file name (by omega)
  refine ⟨⟨cString "a", 2, 0b00001111, BitVec.ofNat 64 p⟩, ⟨e, holds, used, ?_⟩, inUse, file, name,
    fun stopped => ?_⟩
  · rw [← row] at dir
    exact dir
  · cases run.symm.trans stopped

omit [SectorAccess] in
theorem directory_tree_formatted : letI : SectorAccess := .driver
    ∃ s, Formatted plainEnv s ∧ TreeFormed s [1, 2, 3, 4, 5, 6, 7, 8, 9] := by
  obtain ⟨s, formatted⟩ := @exists_formatted .driver
  exact ⟨s, formatted, (@directory_tree .driver _ rfl (@plainEnv_fuel .driver) (s, _)
    (.init ⟨formatted, rfl⟩)).1⟩

end ChudOS.GemFS
