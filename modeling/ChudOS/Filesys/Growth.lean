import ChudOS.Filesys.EntryChain
import Mathlib.Data.List.Infix
import Mathlib.Data.List.Perm.Subperm

/-!
# Growth of the entry chain

Blocks are never given back and the search takes the first free one, so the marked blocks are always
the first `n`. Looking up an index past the end of the chain takes the next blocks for the entries
that are missing.

## Main definitions

* `Disk` — a chain whose blocks are among the `n` marked ones.
* `Grown` — what a lookup leaves as it was.
-/

namespace ChudOS.GemFS

open Volume LinkedChain Outcome

variable [SectorAccess]

structure Disk (s : Volume) (l : List U64) (n : Nat) : Prop extends Chain s l where
  filled : s.Filled n
  reserved : 6 ≤ n
  le : n ≤ capacity
  placed : ∀ b ∈ l, b.toNat < n

/-- An entry but for its link in the chain. -/
def Entry.unlinked (e : Entry) : Entry := { e with nextIndexStart := 0 }

/-- Every entry is, but for its link, the one that was last written under its index. -/
def Faithful (s : Volume) (l : List U64) : Prop :=
  ∀ b ∈ l, (s.written (s.node b).index).unlinked = (s.node b).unlinked

/-- From `s` to `s'` blocks were marked, and entries that are not in use appended to the chain. -/
structure Grown (s : Volume) (l : List U64) (n : Nat) (s' : Volume) (l' : List U64) (n' : Nat) :
    Prop where
  disk : Disk s' l' n'
  more : l <+: l'
  le : n ≤ n'
  kept : ∀ b ∈ l, (s'.node b).unlinked = (s.node b).unlinked
  frame : ∀ b ∉ l', b ≠ 4 → SameBytes (s'.block b) (s.block b)
  fresh : ∀ b ∈ l', b ∉ l → n ≤ b.toNat ∧ (s'.node b).flags = 0
  faithful : Faithful s l → Faithful s' l'
  lbaStart : s'.lbaStart = s.lbaStart

/-- The chain has grown to a length of at least `k`, and the blocks went into it. -/
structure GrownTo (s : Volume) (l : List U64) (n k : Nat) (s' : Volume) (l' : List U64) (n' : Nat) :
    Prop extends Grown s l n s' l' n' where
  length : l'.length = max l.length k
  count : n' + l.length = n + l'.length

variable {env : Env} {s s' s'' : Volume} {a b z i : U64} {k m n n' n'' d : Nat} {e : Entry}
  {l l' l'' p q r : List U64}

omit [SectorAccess] in
theorem length_le_of_nodup (nodup : l.Nodup) (placed : ∀ b ∈ l, b.toNat < n) : l.length ≤ n := by
  have nodup : (l.map BitVec.toNat).Nodup := nodup.map fun _ _ => BitVec.eq_of_toNat_eq
  have sub : l.map BitVec.toNat ⊆ List.range n := fun x hx => by
    obtain ⟨b, hb, rfl⟩ := List.mem_map.mp hx
    exact List.mem_range.mpr (placed b hb)
  simpa using (List.subperm_of_subset nodup sub).length_le

theorem Disk.le_blocks (h : Disk s l n) : n ≤ 512 := h.le.trans capacity_le

theorem Disk.length_le (h : Disk s l n) : l.length ≤ n := length_le_of_nodup h.nodup h.placed

theorem findBlock_of_disk (h : Disk s l n) :
    findBlock s = if n < capacity then .ok (BitVec.ofNat 64 n) else .error .noBlock := by
  rw [findBlock, findFreeBlock_of_filled h.plain h.filled h.le, ok_bind]
  by_cases room : n < capacity
  · have le := capacity_le
    have small : (BitVec.ofNat 64 n).toNat = n := by simp; omega
    have free : fbbGetBlock s (BitVec.ofNat 64 n) = false := by
      have := h.filled (BitVec.ofNat 64 n) (by omega)
      simpa [small] using this
    simp only [if_pos room, free, small, true_and]
    rfl
  · have full : n = capacity := by have := h.le; omega
    rw [if_neg room, if_neg room, if_neg]
    rintro ⟨free, low⟩
    have := (h.filled _ low).mpr (full ▸ low)
    rw [free] at this
    cases this

namespace Grown

theorem refl (h : Disk s l n) : Grown s l n s l n where
  disk := h
  more := List.prefix_rfl
  le := Nat.le_refl n
  kept _ _ := rfl
  frame _ _ _ := .refl _
  fresh _ hb hn := absurd hb hn
  faithful := id
  lbaStart := rfl

theorem trans (h : Grown s l n s' l' n') (h' : Grown s' l' n' s'' l'' n'') :
    Grown s l n s'' l'' n'' where
  disk := h'.disk
  more := h.more.trans h'.more
  le := h.le.trans h'.le
  kept b hb := (h'.kept b (h.more.subset hb)).trans (h.kept b hb)
  frame b hb h4 := (h'.frame b hb h4).trans (h.frame b (fun mem => hb (h'.more.subset mem)) h4)
  fresh b hb hn := by
    have le := h.le
    by_cases mem : b ∈ l'
    · have flags := congrArg Entry.flags (h'.kept b mem)
      exact ⟨(h.fresh b mem hn).1, flags.trans (h.fresh b mem hn).2⟩
    · exact ⟨le.trans (h'.fresh b hb mem).1, (h'.fresh b hb mem).2⟩
  faithful hf := h'.faithful (h.faithful hf)
  lbaStart := h'.lbaStart.trans h.lbaStart

/-- A block is marked that no entry takes. -/
theorem mark (h : Disk s l n) (room : n < capacity) :
    Grown s l n (s.mark (BitVec.ofNat 64 n)) l (n + 1) where
  disk := ⟨h.toChain.mark _, h.filled.mark h.plain room, h.reserved.trans (Nat.le_succ n), room,
    fun b hb => (h.placed b hb).trans (Nat.lt_succ_self n)⟩
  more := List.prefix_rfl
  le := Nat.le_succ n
  kept _ hb := by rw [node_mark h.plain (ne_of_mem_of_not_mem hb h.entries.apart)]
  frame _ _ h4 := block_mark h.plain h4
  fresh _ hb hn := absurd hb hn
  faithful hf b hb := by
    rw [node_mark h.plain (ne_of_mem_of_not_mem hb h.entries.apart), written_mark, hf b hb]
  lbaStart := lbaStart_mark s _

/-- Marking a block that is marked or not in the bitmap changes nothing that counts. -/
theorem mark_again (h : Disk s l n) (b : U64) (again : b.toNat < n ∨ capacity ≤ b.toNat) :
    Grown s l n (s.mark b) l n where
  disk := by
    refine ⟨h.toChain.mark b, fun c hc => ?_, h.reserved, h.le, h.placed⟩
    rw [fbbGetBlock_mark h.plain, Bool.or_eq_true, h.filled c hc, Bool.and_eq_true, beq_iff_eq,
      decide_eq_true_eq]
    constructor
    · rintro (marked | ⟨rfl, low⟩)
      · exact marked
      · omega
    · exact .inl
  more := List.prefix_rfl
  le := Nat.le_refl n
  kept _ hb := by rw [node_mark h.plain (ne_of_mem_of_not_mem hb h.entries.apart)]
  frame _ _ h4 := block_mark h.plain h4
  fresh _ hb hn := absurd hb hn
  faithful hf b hb := by
    rw [node_mark h.plain (ne_of_mem_of_not_mem hb h.entries.apart), written_mark, hf b hb]
  lbaStart := lbaStart_mark s _

end Grown

/-- Reserving a range of blocks from the first free one on. -/
theorem setRange_grown (h : Disk s l n) (size : U64) :
    ∃ t, setRange size (BitVec.ofNat 64 n) s = .ok t ∧
      Grown s l n t l (min capacity (n + size.toNat)) := by
  rw [setRange]
  induction size.toNat with
  | zero => exact ⟨s, rfl, by rw [Nat.add_zero, Nat.min_eq_right h.le]; exact .refl h⟩
  | succ k ih =>
    obtain ⟨t, eq, grown⟩ := ih
    have disk := grown.disk
    rw [List.range_succ, List.foldlM_append, eq, ok_bind, List.foldlM_cons,
      fbbSetBlock_of_plain disk.plain, ok_bind]
    refine ⟨_, rfl, grown.trans ?_⟩
    rcases Nat.lt_or_ge (n + k) capacity with room | full
    · have next : BitVec.ofNat 64 k + BitVec.ofNat 64 n = BitVec.ofNat 64 (n + k) := by
        rw [← BitVec.ofNat_add, Nat.add_comm]
      have before : min capacity (n + k) = n + k := by omega
      have after : min capacity (n + (k + 1)) = n + k + 1 := by omega
      rw [before] at disk ⊢
      rw [next, after]
      exact .mark disk room
    · have before : min capacity (n + k) = capacity := by omega
      have after : min capacity (n + (k + 1)) = capacity := by omega
      rw [before] at disk ⊢
      rw [after]
      exact .mark_again disk _ (by omega)

namespace GrownTo

theorem refl (h : Disk s l n) (hk : k ≤ l.length) : GrownTo s l n k s l n :=
  ⟨.refl h, by omega, rfl⟩

theorem trans {k' : Nat} (h : GrownTo s l n k s' l' n') (h' : GrownTo s' l' n' k' s'' l'' n'')
    (hk : k ≤ k') : GrownTo s l n k' s'' l'' n'' := by
  have := h.length
  have := h'.length
  have := h.count
  have := h'.count
  exact ⟨h.toGrown.trans h'.toGrown, by omega, by omega⟩

end GrownTo

/-! ## One more entry -/

omit [SectorAccess] in
theorem Chain.exists_index (h : Chain s l) (hb : b ∈ l) :
    ∃ k, ∃ hk : k < l.length, l[k] = b ∧ (s.node b).index.toNat = k := by
  obtain ⟨k, hk, rfl⟩ := List.mem_iff_getElem.mp hb
  exact ⟨k, hk, rfl, h.index_getElem hk⟩

theorem Faithful.extend (h : Chain s (p ++ [z])) (hi : i.toNat = p.length + 1) (hb : b ∉ p ++ [z])
    (apart : b ≠ 4) (hf : Faithful s p) : Faithful (extend env s i z b 0) (p ++ [z, b]) := by
  have node (c : U64) (hc : c ≠ 4) := node_extend env 0 h.listed hi hb c hc
  have hz : z ≠ 4 := ne_of_mem_of_not_mem (by simp) h.entries.apart
  have hzb : z ≠ b := ne_of_mem_of_not_mem (by simp) hb
  have written : (GemFS.extend env s i z b 0).written =
      Function.update (Function.update s.written (i - 1) { s.node z with nextIndexStart := b })
        i { env.rawEntry s with index := i, flags := 0, nextIndexStart := 0 } := by
    simp [GemFS.extend, node_mark h.plain hz]
  have zIndex : (s.node z).index = i - 1 := by
    apply BitVec.eq_of_toNat_eq
    have lt : p.length < (p ++ [z]).length := by simp
    have := h.index_getElem lt
    rw [pred_toNat hi]
    simpa using this
  have pred : i - 1 ≠ i := fun eq => by
    have := congrArg BitVec.toNat eq
    rw [pred_toNat hi] at this
    omega
  intro x hx
  by_cases xb : x = b
  · rw [xb, node b apart, if_pos rfl, written]
    simp
  by_cases xz : x = z
  · rw [xz, node z hz, if_neg hzb, if_pos rfl, written]
    dsimp only
    rw [zIndex, Function.update_of_ne pred, Function.update_self]
  · have mem : x ∈ p := by simpa [xb, xz] using hx
    have hx4 : x ≠ 4 := ne_of_mem_of_not_mem (List.mem_append_left _ mem) h.entries.apart
    obtain ⟨k, hk, rfl, index⟩ := h.exists_index (List.mem_append_left [z] mem)
    have low : k < p.length := by
      by_contra ge
      have last : k = p.length := by simp at hk; omega
      exact xz (by simp [last])
    rw [node _ hx4, if_neg xb, if_neg xz, written, Function.update_of_ne, Function.update_of_ne]
    · exact hf _ mem
    · exact fun eq => by rw [eq, pred_toNat hi] at index; omega
    · exact fun eq => by rw [eq, hi] at index; omega

/-- One more entry, in the next block. -/
theorem Disk.extend (h : Disk s (p ++ [z]) n) (hi : i.toNat = p.length + 1) (room : n < capacity) :
    Grown s (p ++ [z]) n (extend env s i z (BitVec.ofNat 64 n) 0)
      (p ++ [z, BitVec.ofNat 64 n]) (n + 1) := by
  have few := h.le_blocks
  have small : (BitVec.ofNat 64 n).toNat = n := by simp; omega
  have hb : BitVec.ofNat 64 n ∉ p ++ [z] := fun mem => by
    have := h.placed _ mem
    omega
  have above (c : U64) (hc : c.toNat < 6) : BitVec.ofNat 64 n ≠ c := fun eq => by
    have := h.reserved
    rw [← eq] at hc
    omega
  have apart := above 4 (by decide)
  have short : i.toNat + 1 < 2 ^ 64 := by
    have := h.length_le
    simp at this
    omega
  have node (c : U64) (hc : c ≠ 4) := node_extend env 0 h.listed hi hb c hc
  have avoid (c : U64) (hc : c ∈ p ++ [z]) : c ≠ 4 ∧ c ≠ BitVec.ofNat 64 n :=
    ⟨ne_of_mem_of_not_mem hc h.entries.apart, ne_of_mem_of_not_mem hc hb⟩
  refine ⟨⟨h.toChain.extend hi hb (above 0 (by decide)) apart short, ?_, ?_, room, ?_⟩, ?_,
    Nat.le_succ n, ?_, ?_, ?_, ?_, ?_⟩
  · intro c hc
    rw [fbbGetBlock_extend h.listed hi hb apart, ← fbbGetBlock_mark h.plain]
    exact h.filled.mark h.plain room c hc
  · have := h.reserved
    omega
  · intro c hc
    rcases List.mem_append.mp (by simpa using hc : c ∈ (p ++ [z]) ++ [BitVec.ofNat 64 n]) with
      old | new
    · have := h.placed c old
      omega
    · rw [List.mem_singleton.mp new, small]
      omega
  · exact ⟨[BitVec.ofNat 64 n], by simp⟩
  · intro c hc
    rw [node c (avoid c hc).1, if_neg (avoid c hc).2]
    split_ifs with eq
    · rw [eq]
      rfl
    · rfl
  · intro c absent h4
    have plain := (h.mark (BitVec.ofNat 64 n)).plain
    rw [GemFS.extend, block_putEntry (plain_putEntry.mpr plain) (root_new h.listed hi hb)
      fun eq => absent (by simp [eq]), block_putEntry plain (root_pred h.listed hi)
      fun eq => absent (by simp [eq])]
    exact block_mark h.plain h4
  · intro c hc absent
    have mem : c ∈ (p ++ [z]) ++ [BitVec.ofNat 64 n] := by simpa using hc
    have new := List.mem_singleton.mp ((List.mem_append.mp mem).resolve_left absent)
    rw [new, node _ apart, if_pos rfl]
    exact ⟨small.ge, rfl⟩
  · exact fun hf => Faithful.extend h.toChain hi hb apart fun x hx => hf x (by simp [hx])
  · simp [GemFS.extend]

/-! ## Looking up any index -/

/-- A call stops because no block is left: with `k` more, there are more
than have a bit of their own. -/
def OutOfBlocks (n k : Nat) (e : Stop) : Prop := e = .noBlock ∧ capacity < n + k

omit [SectorAccess] in
theorem Chain.getElem_ne_one (h : Chain s l) (hk : k < l.length) (pos : 0 < k) : l[k] ≠ 1 := by
  obtain ⟨r, rfl⟩ := h.exists_cons
  intro eq
  have same : (1 :: r)[k] = (1 :: r)[0] := eq
  have := h.nodup.getElem_inj_iff.mp same
  omega

omit [SectorAccess] in
theorem node_of_ne_one (hb : b ≠ 1) : s.node b = s.entryIn b := if_neg hb

theorem createEntryAt_of_disk (strict : env.findFreeBlock = findBlock) (h : Disk s (p ++ [z]) n)
    (hi : i.toNat = p.length + 1) :
    createEntryAt env (getEntryBlockWithin env (d + 1)) i 0 s =
      if n < capacity then .ok (GemFS.extend env s i z (BitVec.ofNat 64 n) 0) else .error .noBlock := by
  have found : env.findFreeBlock s =
      if n < capacity then .ok (BitVec.ofNat 64 n) else .error .noBlock := by
    rw [strict, findBlock_of_disk h]
  split_ifs with room
  · have few := h.le_blocks
    have small : (BitVec.ofNat 64 n).toNat = n := by simp; omega
    have hb : BitVec.ofNat 64 n ∉ p ++ [z] := fun mem => by
      have := h.placed _ mem
      omega
    have nonzero : BitVec.ofNat 64 n ≠ 0 := fun eq => by
      have := h.reserved
      rw [eq] at small
      simp at small
      omega
    have short := h.length_le
    rw [List.length_append] at short
    exact createEntryAt_eq h.listed hi hb nonzero (found.trans (if_pos room))
      (by simp at short; omega)
  · rw [createEntryAt, found, if_neg room]
    rfl

/-- The rest of a walk to index `k + m`, from the entry `k`. -/
theorem enumerate_grows (strict : env.findFreeBlock = findBlock) (h : Disk s l n)
    (hk : k < l.length) (long : 1 < l.length) {last : U64} (hlast : 0 < k → last = l[k]) :
    Ends (OutOfBlocks n (k + m + 1 - l.length))
      (fun r => ∃ l' n', GrownTo s l n (k + m + 1) r.1 l' n' ∧ (0 < k + m → l'[k + m]? = some r.2))
      (enumerate (fun i => createEntryAt env (getEntryBlockWithin env (d + 1)) i 0) m
        (BitVec.ofNat 64 (k + 1)) s (s.node l[k]) last) := by
  induction m generalizing s l n k last with
  | zero =>
    refine ⟨l, n, .refl h (by omega), fun pos => ?_⟩
    rw [List.getElem?_eq_getElem (by simpa using hk), hlast pos]
    rfl
  | succ m ih =>
    have round : BitVec.ofNat 64 (k + 1) + 1 = BitVec.ofNat 64 (k + 1 + 1) :=
      (BitVec.ofNat_add (k + 1) 1).symm
    by_cases inside : k + 1 < l.length
    · have link : (s.node l[k]).nextIndexStart = l[k + 1] := h.entries.linked.next_getElem inside
      have nonzero : l[k + 1] ≠ 0 := h.entries.linked.ne_null (List.getElem_mem _)
      have other := node_of_ne_one (s := s) (h.getElem_ne_one inside (by omega))
      have rest := ih h inside long fun _ => rfl
      rw [Nat.add_right_comm k 1 m] at rest
      rw [enumerate, link, if_neg nonzero, ← other, round]
      exact rest
    · -- the end of the chain: the walk goes on in the chain with one more entry
      obtain ⟨p, z, rfl⟩ : ∃ p z, l = p ++ [z] :=
        ⟨l.dropLast, l.getLast (List.ne_nil_of_length_pos (by omega)),
          (List.dropLast_append_getLast _).symm⟩
      have len : p.length = k := by
        rw [List.length_append, List.length_singleton] at inside hk
        omega
      subst len
      have here : (p ++ [z])[p.length] = z := by simp
      have pos : 0 < p.length := by simpa using long
      have hz : z ≠ 1 := here ▸ h.getElem_ne_one hk pos
      have ended : (s.node z).nextIndexStart = 0 := h.entries.linked.next_last
      have index : (BitVec.ofNat 64 (p.length + 1)).toNat = p.length + 1 :=
        Nat.mod_eq_of_lt (by simpa using h.short)
      rw [here] at hlast ⊢
      rw [enumerate, if_pos ended, hlast pos, createEntryAt_of_disk strict h index]
      by_cases room : n < capacity
      · have grown := @Disk.extend _ env _ _ _ _ _ h index room
        have len : (p ++ [z, BitVec.ofNat 64 n]).length = p.length + 1 + 1 := by simp
        have hk' : p.length + 1 < (p ++ [z, BitVec.ofNat 64 n]).length := by omega
        have new : (p ++ [z, BitVec.ofNat 64 n])[p.length + 1] = BitVec.ofNat 64 n := by simp
        have hb : BitVec.ofNat 64 n ≠ 1 := new ▸ grown.disk.getElem_ne_one hk' (by omega)
        have link : (extend env s (BitVec.ofNat 64 (p.length + 1)) z (BitVec.ofNat 64 n) 0).next z =
            BitVec.ofNat 64 n := by
          have := grown.disk.entries.linked.next_getElem hk'
          simpa using this
        have rest := ih grown.disk hk' (by omega) fun _ => new.symm
        rw [new, len, ← round] at rest
        rw [if_pos room, ok_bind]
        dsimp only
        rw [← node_of_ne_one hz, ← Volume.next, link, ← node_of_ne_one hb]
        refine rest.mono (fun e he => ⟨he.1, ?_⟩) fun r hr => ?_
        · have := he.2
          simp only [List.length_append, List.length_singleton]
          omega
        · obtain ⟨l', n', more, found⟩ := hr
          have first : GrownTo s (p ++ [z]) n (p.length + 1 + 1) _ _ (n + 1) :=
            ⟨grown, by simp, by simp; omega⟩
          have steps : p.length + 1 + m = p.length + (m + 1) := by omega
          rw [steps] at more found
          exact ⟨l', n', first.trans more (by omega), fun _ => found (by omega)⟩
      · rw [if_neg room]
        have := h.le
        exact ⟨rfl, by simp; omega⟩

/-- The place in the chain that `GemFS_GetEntryBlock` looks up for an index. The last index wraps
around to an empty walk, which ends at the entry after the main one. -/
def slot (i : U64) : Nat := if i = -1 then 1 else i.toNat

omit [SectorAccess] in
@[simp] theorem slot_zero : slot 0 = 0 := by decide

theorem getEntryBlock_grows (strict : env.findFreeBlock = findBlock) (fuel : 2 ≤ env.fuel)
    (h : Disk s l n) (long : 1 < l.length) (i : U64) :
    Ends (OutOfBlocks n (slot i + 1 - l.length))
      (fun r => ∃ l' n', GrownTo s l n (slot i + 1) r.1 l' n' ∧ l'[slot i]? = some r.2)
      (getEntryBlock env i s) := by
  obtain ⟨d, hd⟩ : ∃ d, env.fuel = d + 1 + 1 := ⟨env.fuel - 2, by omega⟩
  obtain ⟨r, rfl⟩ := h.exists_cons
  rw [getEntryBlock, hd, getEntryBlockWithin]
  by_cases zero : i = 0
  · rw [if_pos zero, zero, slot_zero]
    exact ⟨_, n, .refl h (by simp), rfl⟩
  rw [if_neg zero]
  have start : s.main.entry = s.node (1 :: r)[0] := rfl
  by_cases last : i = -1
  · have rounds : (i + 1).toNat - 1 = 0 := by rw [last]; rfl
    rw [rounds, slot, if_pos last]
    refine ⟨_, n, .refl h long, ?_⟩
    rw [List.getElem?_eq_getElem long]
    exact congrArg some (h.entries.linked.next_getElem long).symm
  · have rounds : (i + 1).toNat - 1 = i.toNat := by
      have : i.toNat ≠ 2 ^ 64 - 1 := fun eq => last (BitVec.eq_of_toNat_eq eq)
      have := i.isLt
      rw [BitVec.toNat_add_of_lt (by change i.toNat + 1 < _; omega)]
      rfl
    have walk := @enumerate_grows _ env s 0 i.toNat n d (1 :: r) strict h (by simp) long
      s.main.entry.nextIndexStart (fun pos => absurd pos (Nat.lt_irrefl 0))
    have pos : 0 < 0 + i.toNat := by
      rw [Nat.zero_add]
      exact Nat.pos_of_ne_zero fun eq => zero (BitVec.eq_of_toNat_eq eq)
    simp only [Nat.zero_add] at walk pos
    rw [rounds, slot, if_neg last]
    refine walk.imp ?_
    rintro x ⟨l', n', grown, found⟩
    exact ⟨l', n', grown, found pos⟩

omit [SectorAccess] in
/-- Only the index 0 leads to block 1. -/
theorem Chain.root_slot (h : Chain s l) (long : 1 < l.length) (found : l[slot i]? = some b) :
    i = 0 ↔ b = 1 := by
  obtain ⟨lt, rfl⟩ := List.getElem?_eq_some_iff.mp found
  constructor
  · rintro rfl
    obtain ⟨r, rfl⟩ := h.exists_cons
    rfl
  · intro one
    by_contra zero
    refine h.getElem_ne_one lt ?_ one
    rw [slot]
    split_ifs
    · exact Nat.one_pos
    · exact Nat.pos_of_ne_zero fun eq => zero (BitVec.eq_of_toNat_eq eq)

theorem readEntry_grows (strict : env.findFreeBlock = findBlock) (fuel : 2 ≤ env.fuel)
    (h : Disk s l n) (long : 1 < l.length) (i : U64) :
    Ends (OutOfBlocks n (slot i + 1 - l.length))
      (fun r => ∃ l' n' b, GrownTo s l n (slot i + 1) r.1 l' n' ∧ l'[slot i]? = some b ∧
        r.2 = r.1.node b)
      (readEntry env i s) := by
  refine (getEntryBlock_grows strict fuel h long i).bind fun r ⟨l', n', grown, found⟩ => ?_
  have root := grown.disk.root_slot (by have := grown.length; omega) found
  dsimp only
  split_ifs with zero
  · rw [readMainEntry_of_cached grown.disk.cached]
    exact ⟨l', n', r.2, grown, found, by rw [root.mp zero]; rfl⟩
  · exact ⟨l', n', r.2, grown, found, (node_of_ne_one fun one => zero (root.mpr one)).symm⟩

theorem writeEntry_grows (strict : env.findFreeBlock = findBlock) (fuel : 2 ≤ env.fuel)
    (h : Disk s l n) (long : 1 < l.length) (i : U64) (e : Entry) :
    Ends (OutOfBlocks n (slot i + 1 - l.length))
      (fun s' => ∃ t l' n' b, GrownTo s l n (slot i + 1) t l' n' ∧ l'[slot i]? = some b ∧
        s' = putEntry env t i b e)
      (writeEntry env i e s) :=
  (getEntryBlock_grows strict fuel h long i).bind fun r ⟨l', n', grown, found⟩ =>
    ⟨r.1, l', n', r.2, grown, found, rfl⟩

/-! ## Replacing an entry -/

section Put

variable (env)

variable (h : Disk s (p ++ b :: q) n) (root : i = 0 ↔ b = 1) (index : e.index.toNat = p.length)
include h

theorem Disk.not_mem : b ∉ p ++ q := by
  have nodup := h.nodup
  rw [List.nodup_middle] at nodup
  exact (List.nodup_cons.mp nodup).1

include root index

theorem Disk.put (tail : Entries s e.nextIndexStart (p.length + 1) r) (apart : b ∉ r)
    (placed : ∀ c ∈ r, c.toNat < n) : Disk (putEntry env s i b e) (p ++ b :: r) n := by
  have hb : b ≠ 4 := ne_of_mem_of_not_mem (by simp) h.entries.apart
  have short : p.length + 1 + r.length < 2 ^ 64 := by
    have := length_le_of_nodup tail.linked.nodup placed
    have := h.length_le
    have := h.le_blocks
    simp at *
    omega
  refine ⟨h.toChain.splice root index tail apart short, h.filled.putEntry h.plain root hb,
    h.reserved, h.le, fun c hc => ?_⟩
  rcases List.mem_append.mp hc with old | new
  · exact h.placed c (List.mem_append_left _ old)
  · rcases List.mem_cons.mp new with rfl | new
    · exact h.placed c (by simp)
    · exact placed c new

/-- The link is left as it is. -/
theorem Disk.put_keep (keep : e.nextIndexStart = s.next b) :
    Disk (putEntry env s i b e) (p ++ b :: q) n := by
  obtain ⟨c, -, -, -, -, rest⟩ := entries_append.mp h.entries
  obtain ⟨-, -, -, -, tail⟩ := entries_cons.mp rest
  rw [Nat.zero_add] at tail
  exact h.put env root index (keep ▸ tail)
    (fun mem => h.not_mem (List.mem_append_right _ mem))
    fun c hc => h.placed c (by simp [hc])

/-- The entries that follow are cut off. -/
theorem Disk.put_cut (cut : e.nextIndexStart = 0) : Disk (putEntry env s i b e) (p ++ [b]) n :=
  h.put env root index (entries_nil.mpr cut) List.not_mem_nil (by simp)

/-- An entry written under its own index is the one written last under it. -/
theorem Faithful.put (own : e.index = i) (hr : r ⊆ q) (hf : Faithful s (p ++ b :: q)) :
    Faithful (putEntry env s i b e) (p ++ b :: r) := by
  have node := node_putEntry env e h.plain root
  intro c hc
  by_cases eq : c = b
  · rw [eq, node, if_pos rfl, own, written_putEntry, Function.update_self]
  · have old : c ∈ p ++ b :: q := by
      rcases List.mem_append.mp hc with mem | mem
      · exact List.mem_append_left _ mem
      · exact List.mem_append_right _ (List.mem_cons_of_mem _
          (hr ((List.mem_cons.mp mem).resolve_left eq)))
    rw [node, if_neg eq, written_putEntry, Function.update_of_ne, hf c old]
    intro same
    obtain ⟨k, hk, rfl, at_k⟩ := h.exists_index old
    rw [same, ← own, index] at at_k
    subst at_k
    exact eq (by simp)

end Put

section PutAt

variable (env)

variable (h : Disk s l n) (hk : k < l.length) (root : i = 0 ↔ l[k] = 1)
  (index : e.index.toNat = k)
include h hk root index

theorem Disk.put_keep_at (keep : e.nextIndexStart = s.next l[k]) :
    Disk (putEntry env s i l[k] e) l n := by
  have split : l.take k ++ l[k] :: l.drop (k + 1) = l := by simp
  rw [← split] at h
  have := h.put_keep env root (by rw [index, List.length_take]; omega) keep
  rwa [split] at this

theorem Disk.put_cut_at (cut : e.nextIndexStart = 0) :
    Disk (putEntry env s i l[k] e) (l.take (k + 1)) n := by
  have split : l.take k ++ l[k] :: l.drop (k + 1) = l := by simp
  rw [← split] at h
  have := h.put_cut env root (by rw [index, List.length_take]; omega) cut
  rwa [List.take_append_getElem] at this

theorem Faithful.put_at (own : e.index = i) (hf : Faithful s l) :
    Faithful (putEntry env s i l[k] e) l := by
  have split : l.take k ++ l[k] :: l.drop (k + 1) = l := by simp
  rw [← split] at h hf
  have := Faithful.put env h root (by rw [index, List.length_take]; omega) own
    (List.Subset.refl _) hf
  rwa [split] at this

end PutAt

end ChudOS.GemFS
