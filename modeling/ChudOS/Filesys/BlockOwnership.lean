import ChudOS.Filesys.AnyCalls
import ChudOS.Filesys.DirectoryTree

/-!
# Owners of blocks

`GemFS_mkdir` reserves a block that it records nowhere. The first one is lost while a partition is
formatted, and no later call gives it an owner.

## Main definitions

* `Owns` — a block is reserved, holds an entry, or is in the range of a file.
* `BlocksOwned` — the marked blocks have one owner each, and the others none.
* `Leaky` — a disk on which the lost block has no owner.
-/

namespace ChudOS.GemFS

open Volume LinkedChain Outcome Transition

variable [SectorAccess]

inductive Owner
  | reserved
  | entry (i : U64)
  | file (i : U64)

/-- What a block belongs to. The main entry is in a reserved block. -/
def Owns (s : Volume) (b : U64) : Owner → Prop
  | .reserved => b.toNat < 6
  | .entry i => i ≠ 0 ∧ ∃ l, Linked s.next 0 1 l ∧ l[i.toNat]? = some b
  | .file i => ∃ e, s.Holds i e ∧ e.inUse = true ∧ e.isDirectory = false ∧
      e.start.toNat ≤ b.toNat ∧ b.toNat < e.start.toNat + e.size.toNat

/-- The marked blocks are the disjoint union of what the owners have. -/
structure BlocksOwned (s : Volume) : Prop where
  marked_iff : ∀ b, fbbGetBlock s b = true ↔ ∃ o, Owns s b o
  apart : ∀ b o o', Owns s b o → Owns s b o' → o = o'

/-- A call that takes blocks. `GemFS_ReadEntry` creates the entries up to the index that are
missing. -/
inductive Allocation
  | create (c : Creation)
  | readEntry (i : U64)

def Allocation.run (env : Env) : Allocation → Volume → Except Stop Volume
  | create c, s => do
    let (s, _) ← c.run env s
    return s
  | readEntry i, s => do
    let (s, _) ← GemFS.readEntry env i s
    return s

def allocations (env : Env) : LTS Volume Allocation where
  init := Formatted env
  step s a t := a.run env s = .ok t

/-- Whenever the call takes a block, one with a bit of its own is free. -/
def FindsBlocks (env : Env) (s : Volume) (a : Allocation) : Prop := a.run env.strict s ≠ .error .noBlock

/-- Block 7 is marked, but it is no entry's, and no file's of one block. -/
structure Leaky (s : Volume) (l : List U64) (n u : Nat) : Prop extends FileSystem s l n u where
  first : [1, 6, 8] <+: l
  leaked : 7 ∉ l
  past : 8 ≤ n
  many : 2 ≤ u
  apart : ∀ k ≤ u, Apart (rows s l k)

variable {env : Env} {s s' : Volume} {i : U64} {k n n' u u' : Nat} {l l' : List U64} {e : Entry}
  {a : Allocation}

theorem Stage.leaky (h : Stage s l n u) (many : 2 ≤ u) : Leaky s l n u :=
  ⟨h.toFileSystem, h.first, h.leaked, h.past, many, h.apart⟩

/-! ## The lost block -/

theorem Leaky.owns_second (h : Leaky s l n u) : Owns s 6 (.entry 1) :=
  ⟨by decide, l, h.entries.linked, (List.prefix_iff_getElem?.mp h.first 1 (by decide))⟩

theorem Leaky.owns_third (h : Leaky s l n u) : Owns s 8 (.entry 2) :=
  ⟨by decide, l, h.entries.linked, (List.prefix_iff_getElem?.mp h.first 2 (by decide))⟩

/-- A file that had the lost block would be one of a single block. -/
theorem Leaky.not_owned (h : Leaky s l n u) : ¬ BlocksOwned s := by
  intro owned
  have past := h.past
  have marked : fbbGetBlock s 7 = true :=
    (h.filled 7 (le_capacity_of_le (by decide))).mpr (show 7 < n by omega)
  obtain ⟨o, owns⟩ := (owned.marked_iff 7).mp marked
  cases o with
  | reserved => exact absurd (show (7 : U64).toNat < 6 from owns) (by decide)
  | entry i =>
    obtain ⟨-, l', linked, found⟩ := owns
    obtain rfl := linked.unique h.entries.linked
    exact h.leaked (List.mem_of_getElem? found)
  | file i =>
    obtain ⟨e, holds, used, file, from_start, to_end⟩ := owns
    have seven : (7 : U64).toNat = 7 := rfl
    have second : ¬ Owns s 6 (.file i) := fun both =>
      Owner.noConfusion (owned.apart 6 _ _ h.owns_second both)
    have third : ¬ Owns s 8 (.file i) := fun both =>
      Owner.noConfusion (owned.apart 8 _ _ h.owns_third both)
    have start : e.start.toNat = 7 := by
      by_contra other
      have six : (6 : U64).toNat = 6 := rfl
      exact second ⟨e, holds, used, file, by omega, by omega⟩
    have size : e.size.toNat = 1 := by
      by_contra other
      have eight : (8 : U64).toNat = 8 := rfl
      exact third ⟨e, holds, used, file, by omega, by omega⟩
    obtain ⟨hk, rfl⟩ := h.toChain.holds_iff.mp holds
    rw [h.inUse _ hk] at used
    have apart := h.apart i.toNat (of_decide_eq_true used)
    rw [rows_eq hk] at apart
    exact (apart (BitVec.eq_of_toNat_eq size)).2 (BitVec.eq_of_toNat_eq start)

/-! ## Any call -/

theorem Survives.leaky (h : Leaky s l n u) (survives : Survives s l n u s' l' n' u') :
    Leaky s' l' n' u' where
  toFileSystem := survives.toFileSystem
  first := by
    have many := h.many
    have front : [1, 6, 8] <+: l.take (u + 1) := by
      rw [List.prefix_take_iff]
      exact ⟨h.first, by simp; omega⟩
    exact front.trans survives.stay
  leaked mem := by
    have past := h.past
    have fresh := survives.fresh 7 mem h.leaked
    change n ≤ 7 at fresh
    omega
  past := h.past.trans survives.marks
  many := h.many.trans survives.more
  apart k hk := by
    rcases Nat.lt_or_ge u k with new | old
    · exact survives.new k hk new
    · exact (survives.touched k old).apart (h.apart k old)

theorem Leaky.run (strict : env.findFreeBlock = findBlock) (fuel : 514 ≤ env.fuel)
    (h : Leaky s l n u) (a : Allocation) :
    Ends (fun _ => True) (fun s' => ∃ l' n' u', Leaky s' l' n' u') (a.run env s) := by
  have long : 1 < l.length := by
    have used := h.used
    have many := h.many
    omega
  cases a with
  | create c =>
    cases c with
    | mkdir args =>
      refine (mkdir_survives strict fuel h.toFileSystem long args).bind ?_
      rintro ⟨s', f⟩ ⟨-, l', n', u', survives, -⟩
      exact ⟨l', n', u', survives.leaky h⟩
    | createFile args size =>
      refine (createFile_survives strict fuel h.toFileSystem long h.past args).bind ?_
      rintro ⟨s', f⟩ ⟨l', n', u', survives, -⟩
      exact ⟨l', n', u', survives.leaky h⟩
  | readEntry i =>
    have look := readEntry_grows strict (by omega) h.toDisk long i
    refine (look.mono (fun _ _ => trivial) fun _ => id).bind ?_
    rintro ⟨s', e⟩ ⟨l', n', b, grown, -⟩
    exact ⟨l', n', u, ((Survives.refl h.toFileSystem).grown grown.toGrown).leaky h⟩

theorem allocation_follows (kernel : env.findFreeBlock = findFreeBlock) (a : Allocation) (s : Volume) :
    Follows .noBlock (a.run env.strict s) (a.run env s) := by
  cases a with
  | create c =>
    cases c with
    | mkdir args => exact (mkdir_follows kernel args s).bind fun _ => .refl _
    | createFile args size => exact (createFile_follows kernel args size s).bind fun _ => .refl _
  | readEntry i => exact (readEntry_follows kernel i s).bind fun _ => .refl _

/-- In no state of any run does every marked block have one owner. -/
theorem blocks_not_owned (kernel : env.findFreeBlock = findFreeBlock) (fuel : 514 ≤ env.fuel)
    (h : Reachable (allocations env) (FindsBlocks env) s) : ¬ BlocksOwned s := by
  obtain ⟨l, n, u, leaky⟩ : ∃ l n u, Leaky s l n u := by
    refine h.invariant (P := fun s => ∃ l n u, Leaky s l n u) ?_ ?_
    · intro s formatted
      obtain ⟨l, stage⟩ := formatted.stage kernel fuel
      exact ⟨l, 52, 9, stage.leaky (by decide)⟩
    · rintro s a t ⟨l, n, u, leaky⟩ finds step
      have run := @Leaky.run _ env.strict s n u l rfl fuel leaky a
      rw [← allocation_follows kernel a s finds, step] at run
      exact run
  exact leaky.not_owned

/-- A file can be created after the formatter. -/
theorem exists_file : ∃ s args s', Formatted plainEnv s ∧
    (Allocation.create (.createFile args 1)).run plainEnv s = .ok s' ∧
      FindsBlocks plainEnv s (.create (.createFile args 1)) := by
  obtain ⟨s, formatted⟩ := exists_formatted
  obtain ⟨args, allowed⟩ := exists_allowed formatted 1 (by decide)
  obtain ⟨l, stage⟩ := formatted.stage rfl plainEnv_fuel
  obtain ⟨s', l', n', run, -⟩ := stage.childAdded rfl plainEnv_fuel allowed
  have step : (Allocation.create (.createFile args 1)).run plainEnv s = .ok s' := by
    rw [Allocation.run, run]
    rfl
  refine ⟨s, args, s', formatted, step, fun stopped => ?_⟩
  obtain ⟨r, eq, -⟩ := bind_eq_ok.mp step
  refine allowed.free ?_
  rw [Allocation.run] at stopped
  cases run' : (Creation.createFile args 1).run plainEnv.strict s with
  | ok r => rw [run'] at stopped; cases stopped
  | error c => rw [run'] at stopped; cases stopped; rfl

omit [SectorAccess] in
/-- After the formatter and the creation of a file. -/
theorem blocks_not_owned_file : letI : SectorAccess := .driver
    ∃ s args s', Formatted plainEnv s ∧
      (Allocation.create (.createFile args 1)).run plainEnv s = .ok s' ∧ ¬ BlocksOwned s' := by
  obtain ⟨s, args, s', formatted, step, finds⟩ := @exists_file .driver
  exact ⟨s, args, s', formatted, step, @blocks_not_owned .driver _ s' rfl (@plainEnv_fuel .driver)
    (.step (.init formatted) finds step)⟩

end ChudOS.GemFS
