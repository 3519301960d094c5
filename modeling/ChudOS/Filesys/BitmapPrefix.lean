import ChudOS.Filesys.Accesses

/-!
# The bitmap as a prefix

No block is given back and every block that is taken is the first free one, so the marked blocks
are the first ones throughout a run.

## Main definitions

* `MarkedBelow` — the marked blocks are those below a number.
-/

namespace ChudOS.GemFS

open Volume Outcome Transition

variable [SectorAccess]

/-- The blocks for which `GemFS_FBB_GetBlock` is true are those below `n`. -/
def MarkedBelow (s : Volume) (n : Nat) : Prop := ∀ b, fbbGetBlock s b = true ↔ b.toNat < n

/-- `GemFS_CreateFile` tests one block, and none of those that it then reserves was in use. -/
def ReservesFree (size : U64) (s s' : Volume) : Prop :=
  ∃ first, findFreeBlock s = .ok first ∧ ∀ k < size.toNat,
    fbbGetBlock s (BitVec.ofNat 64 k + first) = false ∧
      fbbGetBlock s' (BitVec.ofNat 64 k + first) = true

variable {env : Env} {s s' : Volume} {n n' : Nat} {l : List U64} {size : U64}

theorem Disk.markedBelow (h : Disk s l n) : MarkedBelow s n := fun b => by
  have le := h.le
  rw [fbbGetBlock_of_filled h.plain h.filled, decide_eq_true_eq]
  omega

theorem reservesFree (h : Disk s l n) (marked : MarkedBelow s' n') (le : n' ≤ capacity)
    (room : n + size.toNat < n') : ReservesFree size s s' := by
  have found := findFreeBlock_of_filled h.plain h.filled h.le
  rw [if_pos (by omega)] at found
  refine ⟨_, found, fun k hk => ?_⟩
  have place : (BitVec.ofNat 64 k + BitVec.ofNat 64 n).toNat = k + n := by
    rw [← BitVec.ofNat_add]
    exact Nat.mod_eq_of_lt (by have := capacity_le; omega)
  rw [marked, Bool.eq_false_iff, ne_eq, h.markedBelow, place]
  omega

/-- After every run the marked blocks are the first `n`, and the next call marks some that follow
them or none. -/
theorem marked_blocks_first (kernel : env.findFreeBlock = findFreeBlock) (fuel : 514 ≤ env.fuel)
    (h : Reachable (accesses env) (Permitted env) s) :
    ∃ n ≤ capacity, MarkedBelow s n ∧ ∀ a, Permitted env s a → ∃ s' n', a.run env s = .ok s' ∧
      MarkedBelow s' n' ∧ n ≤ n' ∧ n' ≤ capacity ∧
        ∀ args size, a = .create (.createFile args size) → ReservesFree size s s' := by
  obtain ⟨l, n, u, populated, long, -⟩ := exists_populated kernel fuel h
  refine ⟨n, populated.le, populated.markedBelow, fun a ok => ?_⟩
  obtain ⟨s', l', n', u', eq, advanced, -, file⟩ := populated.access kernel fuel long ok
  have marked := advanced.markedBelow
  refine ⟨s', n', eq, marked, advanced.marks, advanced.le, fun args size isFile => ?_⟩
  exact reservesFree populated.toDisk marked advanced.le (file args size isFile)

omit [SectorAccess] in
/-- A file of one block, in a directory of the formatter. -/
theorem marked_blocks_formatted : letI : SectorAccess := .driver
    ∃ s s' args, Formatted plainEnv s ∧
      (Access.create (.createFile args 1)).run plainEnv s = .ok s' ∧ ReservesFree 1 s s' ∧
        ∃ n ≤ 511, MarkedBelow s' n := by
  obtain ⟨s, formatted⟩ := @exists_formatted .driver
  obtain ⟨args, allowed⟩ := @exists_allowed .driver s formatted 1 (by decide)
  obtain ⟨n, -, -, next⟩ := @marked_blocks_first .driver _ s rfl (@plainEnv_fuel .driver)
    (.init formatted)
  obtain ⟨s', n', eq, marked, -, le, reserves⟩ := next (.create (.createFile args 1)) allowed
  exact ⟨s, s', args, formatted, eq, reserves args 1 rfl, n', le, marked⟩

end ChudOS.GemFS
