import ChudOS.Filesys.Resolution

/-!
# The entries that the formatter makes

The names and the parents of the entries of `GemFS_FormatPartition`, in the order of their creation, and what
a further call makes of them.

## Main definitions

* `HasRows` — a disk whose entries are the rows of a list.
-/

namespace ChudOS.GemFS

open Volume LinkedChain Outcome

variable [SectorAccess]

structure Row where
  name : List U8
  parent : Nat
  isDirectory : Bool
deriving DecidableEq

def rowOf (e : Entry) : Row := ⟨letters e.name, e.parentIndex.toNat, e.isDirectory⟩

omit [SectorAccess] in
theorem nextEntry_congr {ent ent' : Nat → Entry} {u : Nat}
    (same : ∀ k ≤ u, rowOf (ent' k) = rowOf (ent k)) : nextEntry ent' u = nextEntry ent u := by
  funext d x
  have kids : children ent' u d = children ent u d :=
    children_congr fun k hk => BitVec.eq_of_toNat_eq (congrArg Row.parent (same k hk))
  rw [nextEntry, nextEntry, shown, shown, kids, ← List.head?_filter, ← List.head?_filter]
  refine if_congr Iff.rfl rfl (congrArg _ (List.filter_congr fun k mem => ?_))
  have le : k ≤ u := by
    split_ifs at mem
    · exact List.mem_singleton.mp mem ▸ Nat.zero_le u
    · exact (mem_children.mp mem).2.1
  rw [show letters (ent' k).name = letters (ent k).name from congrArg Row.name (same k le)]

variable {env : Env} {s s' t : Volume} {l l' : List U64} {n n' m u p k : Nat} {e : Entry}
  {L : List Row} {args : CreateArgs}

/-! ## One more entry -/

omit [SectorAccess] in
@[simp] theorem name_entryAfter {f : U64} {o : Option Nat} : (entryAfter f p o k e).name = e.name := by
  rw [entryAfter, parentAfter]
  split_ifs <;> rfl

namespace ChildAdded

variable (added : ChildAdded s l m u p e s' l' n')
include added

theorem name_old (le : k ≤ u) : (rows s' l' k).name = (rows s l k).name := by
  rw [added.after k (by omega), addChild_old le, name_entryAfter]

theorem parentIndex_old (le : k ≤ u) : (rows s' l' k).parentIndex = (rows s l k).parentIndex := by
  rw [added.after k (by omega), addChild_old le, parentIndex_entryAfter]

/-- The first entry is nobody's sibling. -/
theorem single_root : (rows s' l' 0).siblingIndex = (rows s l 0).siblingIndex := by
  rw [added.after 0 (Nat.zero_le _), addChild_old (Nat.zero_le u)]
  refine siblingIndex_entryAfter fun _ last => ?_
  exact absurd (mem_children.mp (List.mem_of_getLast? last)).1 (Nat.lt_irrefl 0)

theorem legible (h : Legible s l n u) (terminated : Terminated e.name) : Legible s' l' n' (u + 1) where
  toDirectory := added.toDirectory
  terminated k hk := by
    rcases Nat.lt_or_ge u k with new | old
    · obtain rfl : k = u + 1 := by omega
      rwa [added.rows_new]
    · rw [added.name_old old]
      exact h.terminated k old
  single := added.single_root.trans h.single

end ChildAdded

/-- The entries in use are the rows of `L`, with two blocks in the chain at least. -/
structure HasRows (s : Volume) (l : List U64) (n u : Nat) (L : List Row) : Prop
    extends Legible s l n u where
  length : l.length = max 2 (u + 1)
  count : L.length = u + 1
  row : ∀ k (hk : k < L.length), rowOf (rows s l k) = L[k]

theorem HasRows.added (h : HasRows s l n u L) (added : ChildAdded s l m u p e s' l' n')
    (terminated : Terminated e.name) : HasRows s' l' n' (u + 1) (L ++ [rowOf e]) where
  toLegible := added.legible h.toLegible terminated
  length := by rw [added.length]; omega
  count := by rw [List.length_append, h.count]; rfl
  row k hk := by
    have count := h.count
    rw [List.length_append, List.length_singleton] at hk
    rcases Nat.lt_or_ge u k with new | old
    · obtain rfl : k = u + 1 := by omega
      rw [added.rows_new, List.getElem_append_right (by omega)]
      simp [count]
    · rw [List.getElem_append_left (by omega), ← h.row k (by omega), rowOf, rowOf, added.name_old old,
        added.parentIndex_old old, added.isDirectory old]

/-- The formatter's own calls have short names and free blocks. -/
structure FormatterCall (L : List Row) (u p : Nat) (args : CreateArgs) : Prop where
  low : p ≤ u
  parent : args.parentIndex = BitVec.ofNat 64 p
  dir : L[p]?.map Row.isDirectory = some true
  inUse : args.flags.getLsbD 0 = true
  name : args.nameLen.toNat < 128

omit [SectorAccess] in
/-- The rest of the array of a name is filled with zeros. -/
theorem terminated_newDir {f : U64} (short : args.nameLen.toNat < 128) : Terminated (newDir args f).name :=
  ⟨⟨args.nameLen.toNat, short⟩, if_neg (Nat.lt_irrefl _)⟩

section Steps

variable (strict : env.findFreeBlock = findBlock) (fuel : 514 ≤ env.fuel) (h : HasRows s l n u L)
include h

theorem HasRows.isDirectory (dir : L[p]?.map Row.isDirectory = some true) :
    (rows s l p).isDirectory = true := by
  obtain ⟨row, found, dir⟩ := Option.map_eq_some_iff.mp dir
  obtain ⟨lt, rfl⟩ := List.getElem?_eq_some_iff.mp found
  rw [← h.row p lt] at dir
  exact dir

include strict fuel

theorem HasRows.mkdir (call : FormatterCall L u p args) (room : n + 2 ≤ 511) : ∃ s' l' n',
    GemFS.mkdir env args s = .ok (s', BitVec.ofNat 64 (u + 1)) ∧ n' ≤ n + 2 ∧
      HasRows s' l' n' (u + 1) (L ++ [rowOf (newDir args 0)]) := by
  have length := h.length
  obtain ⟨s', l', n', eq, added⟩ := mkdir_step strict fuel h.toDirectory (by omega) call.low call.parent
    (h.isDirectory call.dir) call.inUse call.name.le (by omega)
  have count := added.count
  have listed := h.added added (terminated_newDir call.name)
  exact ⟨s', l', n', eq, by omega, listed⟩

theorem HasRows.createFile (size : U64) (call : FormatterCall L u p args) (file : args.flags.getLsbD 4 = false)
    (room : n + size.toNat + 2 ≤ 511) : ∃ s' l' n',
    GemFS.createFile env args size s = .ok (s', BitVec.ofNat 64 (u + 1)) ∧ n' ≤ n + size.toNat + 2 ∧
      HasRows s' l' n' (u + 1) (L ++ [rowOf (newDir args 0)]) := by
  have length := h.length
  obtain ⟨s', l', n', eq, added⟩ := createFile_step strict fuel size h.toDirectory (by omega) call.low
    call.parent (h.isDirectory call.dir) call.inUse file call.name.le (by omega)
  have count := added.count
  have listed := h.added added (terminated_newDir (f := 0) call.name)
  exact ⟨s', l', n', eq, by omega, listed⟩

theorem HasRows.createProgram (lba : U64) (call : FormatterCall L u p args) (file : args.flags.getLsbD 4 = false)
    (room : n + 11 ≤ 511) : ∃ s' l' n', GemFS.createProgram env args lba s = .ok s' ∧ n' ≤ n + 11 ∧
      HasRows s' l' n' (u + 1) (L ++ [rowOf (newDir args 0)]) := by
  have length := h.length
  obtain ⟨s', l', n', eq, start, added⟩ := createProgram_step strict fuel lba h.toDirectory (by omega)
    call.low call.parent (h.isDirectory call.dir) call.inUse file call.name.le (by omega)
  have count := added.count
  have listed := h.added added (terminated_newDir (f := 0) call.name)
  exact ⟨s', l', n', eq, by omega, listed⟩

end Steps

/-! ## The formatter -/

def formattedEntries : List Entry :=
  [formattedMain.entry,
    newDir ⟨cString "dev", 4, 0b00010111, 0⟩ 0,
    newDir ⟨cString "zero", 5, 0b00010111, 1⟩ 0,
    newDir ⟨cString "urand", 6, 0b00010111, 1⟩ 0,
    newDir ⟨cString "etc", 4, 0b00010111, 0⟩ 0,
    newDir ⟨cString "bin", 4, 0b00010111, 0⟩ 0,
    newDir ⟨cString "shell.elf", 9, 0b00001111, 5⟩ 0,
    newDir ⟨cString "hello_world.elf", 15, 0b00001111, 5⟩ 0,
    newDir ⟨cString "chudedit.elf", 12, 0b00001111, 5⟩ 0,
    newDir ⟨cString "boot_msg.txt", 13, 0b00001111, 4⟩ 0]

def formattedRows : List Row := formattedEntries.map rowOf

section Formatter

variable (strict : env.findFreeBlock = findBlock) (fuel : 514 ≤ env.fuel)
include strict fuel

theorem formatEntries_listed {s₀ : Volume} (started : Started env s₀)
    (eq₀ : (List.range 6).foldlM (fun s i => fbbSetBlock s (BitVec.ofNat 64 i)) (writeHeader s) =
      .ok s₀) : ∃ t l n, formatEntries env s = .ok (t, 9) ∧ HasRows t l n 9 formattedRows := by
  obtain ⟨found, again, dir, -, -, root⟩ := first_entry strict (by omega) started
  obtain ⟨t, ht⟩ : ∃ t, extend env s₀ 1 1 6 0 = t := ⟨_, rfl⟩
  rw [ht] at found again dir root
  have first : HasRows t [1, 6] 7 0 [rowOf formattedMain.entry] := by
    refine ⟨⟨dir, fun k hk => ?_, by rw [root]; rfl⟩, rfl, rfl, fun k hk => ?_⟩
    · obtain rfl : k = 0 := by omega
      rw [root]
      exact ⟨⟨4, by decide⟩, rfl⟩
    · obtain rfl : k = 0 := Nat.lt_one_iff.mp hk
      rw [root]
      rfl
  obtain ⟨s₁, l₁, n₁, eq₁, le₁, dev⟩ := @HasRows.mkdir _ env t [1, 6] 7 0 0 _
    ⟨cString "dev", 4, 0b00010111, 0⟩ strict fuel first
    ⟨Nat.zero_le _, rfl, rfl, rfl, by decide⟩ (by decide)
  have first : mkdir env ⟨cString "dev", 4, 0b00010111, 0⟩ s₀ = .ok (s₁, 1) := by
    rw [mkdir, found]
    rw [mkdir, again] at eq₁
    exact eq₁
  obtain ⟨s₂, l₂, n₂, eq₂, le₂, zero⟩ := @HasRows.mkdir _ env s₁ l₁ n₁ 1 1 _
    ⟨cString "zero", 5, 0b00010111, 1⟩ strict fuel dev
    ⟨by decide, rfl, rfl, rfl, by decide⟩ (by omega)
  obtain ⟨s₃, l₃, n₃, eq₃, le₃, urand⟩ := @HasRows.mkdir _ env s₂ l₂ n₂ 2 1 _
    ⟨cString "urand", 6, 0b00010111, 1⟩ strict fuel zero
    ⟨by decide, rfl, rfl, rfl, by decide⟩ (by omega)
  obtain ⟨s₄, l₄, n₄, eq₄, le₄, etc⟩ := @HasRows.mkdir _ env s₃ l₃ n₃ 3 0 _
    ⟨cString "etc", 4, 0b00010111, 0⟩ strict fuel urand
    ⟨by decide, rfl, rfl, rfl, by decide⟩ (by omega)
  obtain ⟨s₅, l₅, n₅, eq₅, le₅, bin⟩ := @HasRows.mkdir _ env s₄ l₄ n₄ 4 0 _
    ⟨cString "bin", 4, 0b00010111, 0⟩ strict fuel etc
    ⟨by decide, rfl, rfl, rfl, by decide⟩ (by omega)
  obtain ⟨s₆, l₆, n₆, eq₆, le₆, shell⟩ := @HasRows.createProgram _ env s₅ l₅ n₅ 5 5 _
    ⟨cString "shell.elf", 9, 0b00001111, 5⟩ strict fuel bin 1500
    ⟨by decide, rfl, rfl, rfl, by decide⟩ rfl (by omega)
  obtain ⟨s₇, l₇, n₇, eq₇, le₇, hello⟩ := @HasRows.createProgram _ env s₆ l₆ n₆ 6 5 _
    ⟨cString "hello_world.elf", 15, 0b00001111, 5⟩ strict fuel shell 1600
    ⟨by decide, rfl, rfl, rfl, by decide⟩ rfl (by omega)
  obtain ⟨s₈, l₈, n₈, eq₈, le₈, edit⟩ := @HasRows.createProgram _ env s₇ l₇ n₇ 7 5 _
    ⟨cString "chudedit.elf", 12, 0b00001111, 5⟩ strict fuel hello 1800
    ⟨by decide, rfl, rfl, rfl, by decide⟩ rfl (by omega)
  obtain ⟨s₉, l₉, n₉, eq₉, -, msg⟩ := @HasRows.createFile _ env s₈ l₈ n₈ 8 4 _
    ⟨cString "boot_msg.txt", 13, 0b00001111, 4⟩ strict fuel edit 1
    ⟨by decide, rfl, rfl, rfl, by decide⟩ rfl (by simp; omega)
  refine ⟨s₉, l₉, n₉, ?_, msg⟩
  have eq₂ : mkdir env _ s₁ = .ok (s₂, 2) := eq₂
  have eq₃ : mkdir env _ s₂ = .ok (s₃, 3) := eq₃
  have eq₄ : mkdir env _ s₃ = .ok (s₄, 4) := eq₄
  have eq₅ : mkdir env _ s₄ = .ok (s₅, 5) := eq₅
  rw [formatEntries, eq₀]
  simp only [ok_bind, first, eq₂, eq₃, eq₄, eq₅, eq₆, eq₇, eq₈]
  exact eq₉

theorem formatPartition_rows (zeroed : Zeroed s) (bootMsg : Nat → U8) :
    ∃ t l, formatPartition env bootMsg s = .ok t ∧ Stage t l 52 9 ∧ Legible t l 52 9 ∧
      ∀ k (hk : k < 10), rowOf (rows t l k) = formattedRows.get ⟨k, hk⟩ := by
  obtain ⟨s₀, bare, -, eq₀⟩ := bare_of_zeroed zeroed
  have started := bare.started env
  obtain ⟨t, l, eq, stage, boot, outside⟩ := formatEntries_started strict fuel started eq₀
  obtain ⟨t', l', n', eq', listed⟩ := formatEntries_listed strict fuel started eq₀
  obtain rfl : t = t' := (Prod.mk.inj (Except.ok.inj (eq.symm.trans eq'))).1
  obtain rfl : l = l' := stage.entries.linked.unique listed.entries.linked
  have file : (rows t l 9).isDirectory = false := by rw [boot]; rfl
  obtain ⟨t₁, written, done, same, -⟩ := stage.writeFile env bootMsg (k := 9) (by omega) (by decide) file
    fun c inside => by
      rw [boot] at inside
      obtain rfl := block_of_bootFile inside
      exact ⟨outside, by decide⟩
  have length := stage.length
  have row (k : Nat) (hk : k ≤ 9) : rows t₁ l k = rows t l k := by
    rw [rows_eq (by omega), rows_eq (by omega), same _ (List.getElem_mem _)]
  refine ⟨t₁, l, by rw [formatPartition_eq, eq]; exact written, done, ⟨done.toDirectory, fun k hk => ?_, ?_⟩,
    fun k hk => ?_⟩
  · rw [row k hk]
    exact listed.terminated k hk
  · rw [row 0 (by decide)]
    exact listed.single
  · rw [row k (by omega)]
    exact listed.row k hk

end Formatter

/-- What the formatter leaves, also where its search for a block does not give up. -/
theorem Formatted.rows (kernel : env.findFreeBlock = findFreeBlock)
    (fuel : 514 ≤ env.fuel) (h : Formatted env s) : ∃ l, Stage s l 52 9 ∧ Legible s l 52 9 ∧
      ∀ k (hk : k < 10), rowOf (GemFS.rows s l k) = formattedRows.get ⟨k, hk⟩ := by
  obtain ⟨s₀, bootMsg, zeroed, eq⟩ := h
  obtain ⟨t, l, go, all⟩ := @formatPartition_rows _ env.strict s₀ rfl fuel zeroed bootMsg
  obtain rfl : t = s := Except.ok.inj (((formatPartition_follows kernel bootMsg s₀).ok go).symm.trans eq)
  exact ⟨l, all⟩

end ChudOS.GemFS
