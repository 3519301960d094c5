import ChudOS.Filesys.Accesses

/-!
# The chain as an array of entries

An index in use keeps its block from then on, and no two share one. What is read under an index is
what was written under it last, but for the link to the next entry.

## Main definitions

* `EntryArray` — the entries in use behave as the cells of an array.
-/

namespace ChudOS.GemFS

open Volume Transition

variable [SectorAccess]

structure EntryArray (env : Env) (s : Volume) : Prop where
  read : ∀ i e, s.InUse i e →
    readEntry env i s = .ok (s, e) ∧ e.index = i ∧ e.unlinked = (s.written i).unlinked
  block : ∀ i e, s.InUse i e → ∃ b, getEntryBlock env i s = .ok (s, b) ∧
    ∀ s', Reachable (accessesFrom env s) (Permitted env) s' →
      getEntryBlock env i s' = .ok (s', b) ∧ ∃ e', s'.InUse i e'
  apart : ∀ i j e e' b, s.InUse i e → s.InUse j e' → getEntryBlock env i s = .ok (s, b) →
    getEntryBlock env j s = .ok (s, b) → i = j
  write : ∀ i e, Permitted env s (.writeEntry i e) → ∃ s', writeEntry env i e s = .ok s' ∧
    s'.InUse i e ∧ ∀ j e', j ≠ i → s.InUse j e' → s'.InUse j e'

variable {env : Env} {s s' : Volume} {i j : U64} {n n' u u' : Nat} {l l' : List U64} {e e' : Entry}

theorem Disk.getEntryBlock_eq (h : Disk s l n) (fuel : 0 < env.fuel) (hi : i.toNat < l.length) :
    getEntryBlock env i s = .ok (s, l[i.toNat]) := by
  obtain ⟨d, hd⟩ : ∃ d, env.fuel = d + 1 := ⟨env.fuel - 1, by omega⟩
  rw [getEntryBlock, hd]
  exact h.toChain.locate env d hi

theorem Disk.index_eq (h : Disk s l n) (hi : i.toNat < l.length) : (s.node l[i.toNat]).index = i :=
  BitVec.eq_of_toNat_eq (h.index_getElem hi)

theorem Advanced.getElem (h : Advanced s l n u s' l' n' u') (low : i.toNat ≤ u)
    (hi : i.toNat < l.length) : ∃ hi' : i.toNat < l'.length, l'[i.toNat] = l[i.toNat] := by
  have long : i.toNat < (l.take (u + 1)).length := by
    rw [List.length_take]
    omega
  have same := h.stay.getElem long
  rw [List.getElem_take] at same
  exact ⟨long.trans_le h.stay.length_le, same.symm⟩

/-- An index in use stays so, in its block. -/
theorem Advanced.block (h : Advanced s l n u s' l' n' u') (fuel : 0 < env.fuel) (low : i.toNat ≤ u)
    (hi : i.toNat < l.length) :
    getEntryBlock env i s' = .ok (s', l[i.toNat]) ∧ ∃ e', s'.InUse i e' := by
  obtain ⟨hi', same⟩ := h.getElem low hi
  refine ⟨?_, s'.node l'[i.toNat], h.inUse_iff.mpr ⟨low.trans h.more, hi', rfl⟩⟩
  rw [h.getEntryBlock_eq fuel hi', same]

theorem Populated.write_frame (fuel : 0 < env.fuel) (h : Populated s l n u)
    (ok : Permitted env s (.writeEntry i e)) : ∃ s', writeEntry env i e s = .ok s' ∧
      s'.InUse i e ∧ ∀ j e', j ≠ i → s.InUse j e' → s'.InUse j e' := by
  obtain ⟨hi, run, advanced⟩ := h.write fuel ok
  obtain ⟨old, inUse, -⟩ := ok
  obtain ⟨low, -⟩ := h.inUse_iff.mp inUse
  have root : i = 0 ↔ l[i.toNat] = 1 := h.root hi
  have node := node_putEntry env e h.plain root
  refine ⟨_, run, ?_, fun j e' ne used => ?_⟩
  · exact advanced.inUse_iff.mpr ⟨low, hi, (node _).trans (if_pos rfl)⟩
  · obtain ⟨low', hj, rfl⟩ := h.inUse_iff.mp used
    refine advanced.inUse_iff.mpr ⟨low', hj, (node _).trans (if_neg fun same => ne ?_)⟩
    exact BitVec.eq_of_toNat_eq (h.nodup.getElem_inj_iff.mp same)

/-- In every state that a run reaches, the chain of entries behaves as an array. -/
theorem entries_as_array (kernel : env.findFreeBlock = findFreeBlock) (fuel : 514 ≤ env.fuel)
    (h : Reachable (accesses env) (Permitted env) s) : EntryArray env s := by
  obtain ⟨l, n, u, populated, long, faithful⟩ := exists_populated kernel fuel h
  have pos : 0 < env.fuel := by omega
  refine ⟨fun i e used => ?_, fun i e used => ?_, fun i j e e' b used used' found found' => ?_,
    fun i e => populated.write_frame pos⟩
  · obtain ⟨low, hi, rfl⟩ := populated.inUse_iff.mp used
    have index := populated.index_eq hi
    have same := faithful l[i.toNat] (List.getElem_mem hi)
    rw [index] at same
    exact ⟨populated.readEntry_holds pos used.1, index, same.symm⟩
  · obtain ⟨low, hi, -⟩ := populated.inUse_iff.mp used
    refine ⟨l[i.toNat], populated.getEntryBlock_eq pos hi, fun s' run => ?_⟩
    obtain ⟨l', n', u', advanced, -⟩ := exists_advanced kernel fuel populated long run
    exact advanced.block pos low hi
  · obtain ⟨-, hi, -⟩ := populated.inUse_iff.mp used
    obtain ⟨-, hj, -⟩ := populated.inUse_iff.mp used'
    rw [populated.getEntryBlock_eq pos hi] at found
    rw [populated.getEntryBlock_eq pos hj, ← found] at found'
    have same := (Prod.mk.inj (Except.ok.inj found')).2
    exact (BitVec.eq_of_toNat_eq (populated.nodup.getElem_inj_iff.mp same)).symm

/-- After the formatter every index up to 9 is in use. -/
theorem exists_inUse : ∃ s e, Formatted plainEnv s ∧ s.InUse 9 e := by
  obtain ⟨s, formatted⟩ := exists_formatted
  obtain ⟨l, stage⟩ := formatted.stage rfl plainEnv_fuel
  obtain ⟨e, holds, inUse, -⟩ := stage.holds_ofNat (Nat.le_refl 9)
  exact ⟨s, e, formatted, holds, inUse⟩

omit [SectorAccess] in
theorem entries_as_array_formatted : letI : SectorAccess := .ideal
    ∃ s b e, Formatted plainEnv s ∧ s.InUse 9 e ∧ getEntryBlock plainEnv 9 s = .ok (s, b) ∧
      readEntry plainEnv 9 s = .ok (s, e) := by
  obtain ⟨s, e, formatted, inUse⟩ := @exists_inUse .ideal
  obtain ⟨read, block, -⟩ := @entries_as_array .ideal _ s rfl (@plainEnv_fuel .ideal)
    (.init formatted)
  obtain ⟨b, found, -⟩ := block 9 e inUse
  exact ⟨s, b, e, formatted, inUse, found, (read 9 e inUse).1⟩

end ChudOS.GemFS
