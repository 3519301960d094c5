import ChudOS.Filesys.DirectoryTree

/-!
# The contents of files

A file gets the blocks after those that are marked, and no later call takes a marked block. So the
blocks of a file hold no entry and no part of another file, and what was written to it is read back,
where sector input and output is exact.

## Main definitions

* `Session` — the partition, beside the files that a run made and what it wrote to them.
* `sessions` — the session as a transition system.
* `Occupies` — the blocks of a file.
-/

namespace ChudOS.GemFS

open Volume LinkedChain Outcome Transition

variable [SectorAccess]

/-- The partition with two ghosts: the sizes of the files that were made, by index, and what was
written to each of them last. -/
structure Session where
  volume : Volume
  size : U64 → Option U64
  contents : U64 → Option (Nat → U8)

namespace Session

/-- The call `c` made the entry `i`. -/
def made (x : Session) (s : Volume) (i : U64) (c : Creation) : Session where
  volume := s
  size := Function.update x.size i (if c.isMkdir then none else some c.size)
  contents := Function.update x.contents i none

def wrote (x : Session) (s : Volume) (i : U64) (buffer : Nat → U8) : Session :=
  { x with volume := s, contents := Function.update x.contents i (some buffer) }

end Session

inductive FileCall
  | create (c : Creation)
  | readEntry (index : U64)
  | readFile (index : U64) (buffer : Nat → U8) (blocks : U64)
  | writeFile (index : U64) (buffer : Nat → U8)

/-- Entries in use are read, and files that the run made are written. -/
def Proper (env : Env) (x : Session) : FileCall → Prop
  | .create c => Allowed env x.volume c
  | .readEntry i | .readFile i _ _ => ∃ e, x.volume.Holds i e ∧ e.inUse = true
  | .writeFile i _ => (x.size i).isSome = true

/-- The partition from the end of the formatter on. -/
def sessions (env : Env) : LTS Session FileCall where
  init x := Formatted env x.volume ∧ x.size = (fun _ => none) ∧ x.contents = fun _ => none
  step x call y :=
    match call with
    | .create c => ∃ s i, c.run env x.volume = .ok (s, i) ∧ y = x.made s i c
    | .readEntry i => ∃ s e, readEntry env i x.volume = .ok (s, e) ∧ y = { x with volume := s }
    | .readFile i buffer blocks => ∃ s buffer', readFile env i buffer blocks x.volume =
        .ok (s, buffer') ∧ y = { x with volume := s }
    | .writeFile i buffer => ∃ s, writeFile env buffer i x.volume = .ok s ∧ y = x.wrote s i buffer

/-- The blocks that a file's entry names. -/
def Occupies (e : Entry) (b : U64) : Prop := (b - e.start).toNat < e.size.toNat

/-- A file whose blocks are marked and hold no entry. -/
structure Filed (s : Volume) (l : List U64) (n u : Nat) (i size : U64) : Prop where
  low : i.toNat ≤ u
  file : (rows s l i.toNat).isDirectory = false
  size_eq : (rows s l i.toNat).size = size
  small : size.toNat ≤ 512
  clear : ∀ b, Occupies (rows s l i.toNat) b → b.toNat < n ∧ b ∉ l ∧ b ≠ 4

/-- The files of a session have blocks of their own, which hold what was written last. -/
structure Kept (x : Session) (l : List U64) (n u : Nat) : Prop extends Stage x.volume l n u where
  filed : ∀ i size, x.size i = some size → Filed x.volume l n u i size
  alone : ∀ i j, (x.size i).isSome = true → (x.size j).isSome = true → ∀ b,
    Occupies (rows x.volume l i.toNat) b → Occupies (rows x.volume l j.toNat) b → i = j
  stored : ∀ i contents, (x.size i).isSome = true → x.contents i = some contents → ∀ b,
    Occupies (rows x.volume l i.toNat) b → ∀ k < capacity,
      x.volume.block b k = contents (512 * (b - (rows x.volume l i.toNat).start).toNat + k)

variable {env : Env} {s s' : Volume} {x y : Session} {b i j size : U64} {k m n n' u u' p : Nat}
  {e e' : Entry} {l l' : List U64} {call : Creation}

omit [SectorAccess] in
theorem size_made (j : U64) : (x.made s i call).size j =
    if j = i then if call.isMkdir then none else some call.size else x.size j :=
  Function.update_apply ..

omit [SectorAccess] in
theorem contents_made (j : U64) : (x.made s i call).contents j =
    if j = i then none else x.contents j := Function.update_apply ..

omit [SectorAccess] in
theorem contents_wrote {buffer : Nat → U8} (j : U64) : (x.wrote s i buffer).contents j =
    if j = i then some buffer else x.contents j := Function.update_apply ..

/-! ## Files among the entries -/

omit [SectorAccess] in
theorem occupies_congr (start : e'.start = e.start) (size : e'.size = e.size) :
    Occupies e' b ↔ Occupies e b := by
  rw [Occupies, Occupies, start, size]

/-- A new child changes nothing in the entry of a file but its sibling. -/
theorem ChildAdded.row_of_file (added : ChildAdded s l m u p e s' l' n')
    (dir : (rows s l p).isDirectory = true) (hk : k ≤ u) (file : (rows s l k).isDirectory = false) :
    (rows s' l' k).start = (rows s l k).start ∧ (rows s' l' k).size = (rows s l k).size ∧
      (rows s' l' k).isDirectory = false := by
  have other : k ≠ p := fun eq => by
    rw [eq, dir] at file
    cases file
  refine ⟨?_, ?_, (added.isDirectory hk).trans file⟩ <;>
    · rw [added.after k (by omega), addChild_old hk, entryAfter, if_neg other]
      split_ifs <;> rfl

omit [SectorAccess] in
theorem Filed.congr (h : Filed s l n u i size) (le : n ≤ n') (hu : u ≤ u')
    (start : (rows s' l' i.toNat).start = (rows s l i.toNat).start)
    (same : (rows s' l' i.toNat).size = (rows s l i.toNat).size)
    (file : (rows s' l' i.toNat).isDirectory = false)
    (fresh : ∀ b ∈ l', b ∉ l → n ≤ b.toNat) : Filed s' l' n' u' i size := by
  refine ⟨h.low.trans hu, file, same.trans h.size_eq, h.small, fun b hb => ?_⟩
  obtain ⟨lt, absent, apart⟩ := h.clear b ((occupies_congr start same).mp hb)
  refine ⟨lt.trans_le le, fun mem => ?_, apart⟩
  have := fresh b mem absent
  omega

section NewFile

variable (added : ChildAdded s l (min capacity (n + call.size.toNat)) u p (call.entry n u) s' l' n')
  (file : call.isMkdir = false)
include added file

theorem occupies_new :
    Occupies (rows s' l' (u + 1)) b ↔ n ≤ b.toNat ∧ b.toNat < n + call.size.toNat := by
  have count := added.count
  have room := added.le
  have few := capacity_le
  have small : (BitVec.ofNat 64 n).toNat = n := Nat.mod_eq_of_lt (by omega)
  rw [added.rows_new, Creation.entry, file]
  change (b - BitVec.ofNat 64 n).toNat < call.size.toNat ↔ _
  rw [BitVec.toNat_sub, small]
  have := b.isLt
  omega

/-- A file gets the blocks after those that are marked. -/
theorem filed_new (h : Stage s l n u) (kind : call.args.flags.getLsbD 4 = call.isMkdir)
    (last : i.toNat = u + 1) : Filed s' l' n' (u + 1) i call.size := by
  have count := added.count
  have room := added.le
  have few := capacity_le
  have past := h.past
  refine ⟨last.le, ?_, ?_, by omega, fun b inside => ?_⟩
  · rw [last, added.rows_new, ← file, ← kind]
    rfl
  · rw [last, added.rows_new]
    rfl
  · rw [last, occupies_new added file] at inside
    refine ⟨by omega, fun mem => ?_, fun four => ?_⟩
    · by_cases old : b ∈ l
      · have := h.placed b old
        omega
      · have := (added.block b mem old).1
        omega
    · rw [four] at inside
      change n ≤ 4 ∧ _ at inside
      omega

end NewFile

/-! ## One call -/

namespace Kept

/-- A new entry leaves the blocks of the files alone. -/
theorem create (kernel : env.findFreeBlock = findFreeBlock) (fuel : 514 ≤ env.fuel)
    (h : Kept x l n u) (allowed : Allowed env x.volume call) :
    ∃ s l' n', call.run env x.volume = .ok (s, BitVec.ofNat 64 (u + 1)) ∧
      Kept (x.made s (BitVec.ofNat 64 (u + 1)) call) l' n' (u + 1) := by
  obtain ⟨s, l', n', eq, added⟩ := h.toStage.childAdded kernel fuel allowed
  have stage := (h.toStage.creation added).toStage
  refine ⟨s, l', n', eq, ?_⟩
  have last := stage.toNat_ofNat (Nat.le_refl (u + 1))
  generalize BitVec.ofNat 64 (u + 1) = i at last
  have dir : (rows x.volume l call.args.parentIndex.toNat).isDirectory = true := by
    obtain ⟨e, holds, -, dir⟩ := allowed.parent
    rw [← h.unlinked_of_holds holds]
    exact dir
  have count := added.count
  have le := h.le
  have same (j : U64) (ne : j ≠ i) : (x.made s i call).size j = x.size j :=
    (size_made j).trans (if_neg ne)
  have new (made : ((x.made s i call).size i).isSome = true) : call.isMkdir = false := by
    rw [size_made, if_pos rfl] at made
    by_contra dir
    rw [if_pos (by simpa using dir)] at made
    cases made
  have row (j z : U64) (made : x.size j = some z) :=
    added.row_of_file dir (h.filed j z made).low (h.filed j z made).file
  have keep (j z : U64) (made : x.size j = some z) (b : U64) :
      Occupies (rows s l' j.toNat) b ↔ Occupies (rows x.volume l j.toNat) b :=
    occupies_congr (row j z made).1 (row j z made).2.1
  -- the blocks of the other files lie below the new ones
  have below (j : U64) (ne : j ≠ i) (made : ((x.made s i call).size j).isSome = true) (b : U64)
      (inside : Occupies (rows s l' j.toNat) b) : b.toNat < n := by
    rw [same j ne] at made
    obtain ⟨z, hz⟩ := Option.isSome_iff_exists.mp made
    exact ((h.filed j z hz).clear b ((keep j z hz b).mp inside)).1
  have above (made : ((x.made s i call).size i).isSome = true) (b : U64)
      (inside : Occupies (rows s l' i.toNat) b) : n ≤ b.toNat := by
    rw [last, occupies_new added (new made)] at inside
    exact inside.1
  refine ⟨stage, fun j z made => ?_, fun j k hj hk b inj ink => ?_,
    fun j cs made written b inside k hk => ?_⟩
  · by_cases eq : j = i
    · rw [eq] at made ⊢
      have file := new (by rw [made]; rfl)
      rw [size_made, if_pos rfl, file] at made
      obtain rfl : call.size = z := Option.some.inj made
      exact filed_new added file h.toStage allowed.kind last
    · rw [same j eq] at made
      obtain ⟨start, size, file⟩ := row j z made
      exact (h.filed j z made).congr (by omega) (Nat.le_succ u) start size file
        fun b mem absent => by
          have := (added.block b mem absent).1
          omega
  · by_cases eq : j = i <;> by_cases eq' : k = i
    · rw [eq, eq']
    · rw [eq] at hj inj
      have := above hj b inj
      have := below k eq' hk b ink
      omega
    · rw [eq'] at hk ink
      have := above hk b ink
      have := below j eq hj b inj
      omega
    · rw [same j eq] at hj
      rw [same k eq'] at hk
      obtain ⟨z, hz⟩ := Option.isSome_iff_exists.mp hj
      obtain ⟨z', hz'⟩ := Option.isSome_iff_exists.mp hk
      exact h.alone j k hj hk b ((keep j z hz b).mp inj) ((keep k z' hz' b).mp ink)
  · by_cases eq : j = i
    · rw [contents_made, if_pos eq] at written
      cases written
    · rw [same j eq] at made
      rw [contents_made, if_neg eq] at written
      obtain ⟨z, hz⟩ := Option.isSome_iff_exists.mp made
      have inside := (keep j z hz b).mp inside
      obtain ⟨lt, absent, apart⟩ := (h.filed j z hz).clear b inside
      change s.block b k = cs (512 * (b - (rows s l' j.toNat).start).toNat + k)
      rw [added.frame b absent apart (by omega) k hk, (row j z hz).1]
      exact h.stored j cs made written b inside k hk

/-- Writing a file changes its own blocks only. -/
theorem write (lossless : SectorAccess.lossless = true) (fuel : 0 < env.fuel) (buffer : Nat → U8)
    (h : Kept x l n u) (made : (x.size i).isSome = true) :
    ∃ s, writeFile env buffer i x.volume = .ok s ∧ Kept (x.wrote s i buffer) l n u := by
  obtain ⟨z, hz⟩ := Option.isSome_iff_exists.mp made
  have filed := h.filed i z hz
  have narrow : sectorsMoved ((rows x.volume l i.toNat).size.setWidth 16) =
      (rows x.volume l i.toNat).size.toNat := by
    have := filed.small
    rw [sectorsMoved, if_pos lossless, filed.size_eq, BitVec.toNat_setWidth]
    omega
  obtain ⟨s, eq, stage, node, block⟩ := h.toStage.writeFile env buffer fuel filed.low filed.file
    fun b inside => (filed.clear b (inside.trans_eq narrow)).2
  rw [BitVec.ofNat_toNat, BitVec.setWidth_eq] at eq
  rw [narrow] at block
  have row (j z : U64) (made : x.size j = some z) : rows s l j.toNat = rows x.volume l j.toNat := by
    have := (h.filed j z made).low
    have := h.length
    rw [rows_eq (by omega), rows_eq (by omega), node _ (List.getElem_mem _)]
  refine ⟨s, eq, stage, fun j z made => ?_, fun j k hj hk b inj ink => ?_,
    fun j cs made written b inside k hk => ?_⟩
  · have same := row j z made
    exact (h.filed j z made).congr (Nat.le_refl n) (Nat.le_refl u) (congrArg _ same)
      (congrArg _ same) ((congrArg _ same).trans (h.filed j z made).file)
      fun b mem absent => absurd mem absent
  · obtain ⟨z, hz⟩ := Option.isSome_iff_exists.mp hj
    obtain ⟨z', hz'⟩ := Option.isSome_iff_exists.mp hk
    exact h.alone j k hj hk b (row j z hz ▸ inj) (row k z' hz' ▸ ink)
  · obtain ⟨z', hz'⟩ := Option.isSome_iff_exists.mp made
    change s.block b k = cs (512 * (b - (rows s l j.toNat).start).toNat + k)
    change Occupies (rows s l j.toNat) b at inside
    rw [row j z' hz'] at inside ⊢
    rw [block b ((h.filed j z' hz').clear b inside).2.1]
    by_cases eq : j = i
    · subst eq
      rw [contents_wrote, if_pos rfl] at written
      obtain rfl := Option.some.inj written
      have some_block : (rows x.volume l j.toNat).size.setWidth 16 ≠ (0 : U16) := fun zero => by
        have small := filed.small
        have size := congrArg BitVec.toNat zero
        rw [filed.size_eq, BitVec.toNat_setWidth] at size
        rw [Occupies, filed.size_eq] at inside
        change _ = 0 at size
        omega
      exact (congrFun (if_pos inside) k).trans (if_neg some_block)
    · rw [contents_wrote, if_neg eq] at written
      have other : ¬ Occupies (rows x.volume l i.toNat) b := fun other =>
        eq (h.alone j i made (by rw [hz]; rfl) b inside other)
      exact (congrFun (if_neg other) k).trans (h.stored j cs made written b inside k hk)

/-- `GemFS_ReadFile` reads the blocks of a file and changes nothing. -/
theorem read (lossless : SectorAccess.lossless = true) (fuel : 0 < env.fuel) {contents : Nat → U8} (h : Kept x l n u)
    (made : x.size i = some size) (written : x.contents i = some contents) (buffer : Nat → U8) :
    ∃ buffer', readFile env i buffer size x.volume = .ok (x.volume, buffer') ∧
      ∀ k < 512 * size.toNat, buffer' k = contents k := by
  have filed := h.filed i size made
  have lt : i.toNat < l.length := by
    have := h.length
    have := filed.low
    omega
  have row := rows_eq (s := x.volume) lt
  have eq := h.toStage.readEntry_holds fuel (h.holds_iff.mpr ⟨lt, rfl⟩)
  have file : (x.volume.node l[i.toNat]).isDirectory = false := by
    have := filed.file
    rw [row] at this
    exact this
  refine ⟨_, by rw [readFile, eq, ok_bind]; dsimp only; rw [file, if_neg nofun]; rfl, fun k hk => ?_⟩
  have small := filed.small
  have count : (size.setWidth 16 : U16).toNat = size.toNat := by
    rw [BitVec.toNat_setWidth]
    omega
  have place : blockToLBA x.volume (x.volume.node l[i.toNat]).start + BitVec.ofNat 64 (k / 512) =
      blockToLBA x.volume ((rows x.volume l i.toNat).start + BitVec.ofNat 64 (k / 512)) := by
    rw [blockToLBA_of_plain h.plain, blockToLBA_of_plain h.plain, row]
    change (x.volume.node l[i.toNat]).start + _ + _ = (x.volume.node l[i.toNat]).start + _ + _
    grind
  have offset : (rows x.volume l i.toNat).start + BitVec.ofNat 64 (k / 512) -
      (rows x.volume l i.toNat).start = BitVec.ofNat 64 (k / 512) := by
    grind
  have nth : (BitVec.ofNat 64 (k / 512)).toNat = k / 512 := Nat.mod_eq_of_lt (by omega)
  have inside : Occupies (rows x.volume l i.toNat)
      ((rows x.volume l i.toNat).start + BitVec.ofNat 64 (k / 512)) := by
    rw [Occupies, offset, nth, filed.size_eq]
    omega
  have stored := h.stored i contents (by rw [made]; rfl) written _ inside (k % 512)
    (by rw [capacity, if_pos lossless]; exact Nat.mod_lt k (by decide))
  rw [offset, nth, Nat.div_add_mod] at stored
  rw [getSectors, count, if_pos ⟨hk, .inl lossless⟩, if_pos (.inl lossless), place]
  exact stored

end Kept

/-! ## Runs -/

theorem Stage.readFile_same {buffer buffer' : Nat → U8} (h : Stage s l n u) (fuel : 0 < env.fuel)
    (holds : s.Holds i e) (run : readFile env i buffer size s = .ok (s', buffer')) : s = s' := by
  rw [readFile, h.readEntry_holds fuel holds, ok_bind] at run
  dsimp only at run
  split_ifs at run <;> exact (Prod.mk.inj (Except.ok.inj run)).1

/-- No file was made yet. -/
theorem exists_kept_first (kernel : env.findFreeBlock = findFreeBlock) (fuel : 514 ≤ env.fuel)
    (start : (sessions env).init x) : ∃ l n u, Kept x l n u := by
  obtain ⟨formatted, size, contents⟩ := start
  obtain ⟨l, stage⟩ := formatted.stage kernel fuel
  refine ⟨l, 52, 9, stage, fun i z made => ?_, fun i j made => ?_, fun i cs made => ?_⟩ <;>
    · rw [size] at made
      cases made

theorem exists_kept (lossless : SectorAccess.lossless = true)
    (kernel : env.findFreeBlock = findFreeBlock) (fuel : 514 ≤ env.fuel)
    (h : Reachable (sessions env) (Proper env) x) : ∃ l n u, Kept x l n u := by
  refine h.invariant (P := fun x => ∃ l n u, Kept x l n u) ?_ ?_
  · exact fun x => exists_kept_first kernel fuel
  · rintro x call y ⟨l, n, u, kept⟩ proper step
    have pos : 0 < env.fuel := by omega
    cases call with
    | create c =>
      obtain ⟨s, i, run, rfl⟩ := step
      obtain ⟨s', l', n', run', kept'⟩ := kept.create kernel fuel proper
      obtain ⟨rfl, rfl⟩ := Prod.mk.inj (Except.ok.inj (run.symm.trans run'))
      exact ⟨l', n', u + 1, kept'⟩
    | readEntry i =>
      obtain ⟨e, holds, -⟩ := proper
      obtain ⟨s, e', run, rfl⟩ := step
      rw [kept.toStage.readEntry_holds pos holds] at run
      obtain ⟨rfl, -⟩ := Prod.mk.inj (Except.ok.inj run)
      exact ⟨l, n, u, kept⟩
    | readFile i buffer blocks =>
      obtain ⟨e, holds, -⟩ := proper
      obtain ⟨s, buffer', run, rfl⟩ := step
      obtain rfl := kept.toStage.readFile_same pos holds run
      exact ⟨l, n, u, kept⟩
    | writeFile i buffer =>
      obtain ⟨s, run, rfl⟩ := step
      obtain ⟨s', run', kept'⟩ := kept.write lossless pos buffer proper
      obtain rfl := Except.ok.inj (run.symm.trans run')
      exact ⟨l, n, u, kept'⟩

/-- What was written to a file last is read back, whatever was called since. -/
theorem file_contents_kept (lossless : SectorAccess.lossless = true)
    (kernel : env.findFreeBlock = findFreeBlock) (fuel : 514 ≤ env.fuel)
    (h : Reachable (sessions env) (Proper env) x) {contents : Nat → U8}
    (made : x.size i = some size) (written : x.contents i = some contents) (buffer : Nat → U8) :
    ∃ buffer', readFile env i buffer size x.volume = .ok (x.volume, buffer') ∧
      ∀ k < 512 * size.toNat, buffer' k = contents k := by
  obtain ⟨l, n, u, kept⟩ := exists_kept lossless kernel fuel h
  exact kept.read lossless (by omega) made written buffer

/-- A run after the formatter in which a file of one block was made. -/
theorem exists_session : ∃ x l n u i, Reachable (sessions plainEnv) (Proper plainEnv) x ∧
    Kept x l n u ∧ x.size i = some 1 := by
  obtain ⟨s, formatted⟩ := exists_formatted
  obtain ⟨args, allowed⟩ := exists_allowed formatted 1 (by decide)
  have first : (sessions plainEnv).init ⟨s, fun _ => none, fun _ => none⟩ := ⟨formatted, rfl, rfl⟩
  have start : Reachable (sessions plainEnv) (Proper plainEnv) ⟨s, fun _ => none, fun _ => none⟩ :=
    .init first
  obtain ⟨l, n, u, kept⟩ := exists_kept_first rfl plainEnv_fuel first
  obtain ⟨s', l', n', run, kept'⟩ := kept.create rfl plainEnv_fuel allowed
  have made := Reachable.step (l := FileCall.create (.createFile args 1)) start allowed
    ⟨s', _, run, rfl⟩
  generalize BitVec.ofNat 64 (u + 1) = i at kept' made
  have size := @size_made s' ⟨s, fun _ => none, fun _ => none⟩ i (.createFile args 1) i
  rw [if_pos rfl] at size
  exact ⟨_, l', n', u + 1, i, made, kept', size⟩

/-- A file of one block, in a directory of the formatter, was made and written. -/
theorem exists_written (lossless : SectorAccess.lossless = true) :
    ∃ x i, Reachable (sessions plainEnv) (Proper plainEnv) x ∧ x.size i = some 1 ∧
      x.contents i = some (cString "contents") := by
  obtain ⟨x, l, n, u, i, made, kept, size⟩ := exists_session
  have some := congrArg Option.isSome size
  have pos : 0 < plainEnv.fuel := by have := plainEnv_fuel; omega
  obtain ⟨s, run, -⟩ := kept.write lossless pos (cString "contents") some
  exact ⟨_, i, .step (l := FileCall.writeFile i (cString "contents")) made some ⟨s, run, rfl⟩, size,
    (contents_wrote i).trans (if_pos rfl)⟩

omit [SectorAccess] in
theorem file_contents_read_back : letI : SectorAccess := .ideal
    ∃ s i buffer', readFile plainEnv i (fun _ => 0) 1 s = .ok (s, buffer') ∧
      ∀ k < 512 * (1 : U64).toNat, buffer' k = cString "contents" k := by
  obtain ⟨x, i, reached, size, written⟩ := @exists_written .ideal rfl
  exact ⟨x.volume, i, @file_contents_kept .ideal _ _ _ _ rfl rfl (@plainEnv_fuel .ideal) reached _ size
    written fun _ => 0⟩

end ChudOS.GemFS
