import ChudOS.Filesys.Growth

/-!
# Creating directories and files

The entries in use are the first ones of the chain. `GemFS_mkdir` takes the entry after them, links
it into the list of children of its parent and drops whatever the chain holds behind it.

## Main definitions

* `FileSystem` — a disk whose entries in use are those up to an index.
* `Made` — the entries after `GemFS_mkdir`.
-/

namespace ChudOS.GemFS

open Volume LinkedChain Outcome

variable [SectorAccess]

/-- A disk with entries in use up to the index `u`, and none after it. -/
structure FileSystem (s : Volume) (l : List U64) (n u : Nat) : Prop extends Disk s l n where
  used : u < l.length
  inUse : ∀ k (hk : k < l.length), (s.node l[k]).inUse = decide (k ≤ u)

variable {env : Env} {s s' t : Volume} {a b z i f : U64} {j k m n n' u d : Nat} {e : Entry}
  {l l' p q r : List U64} {stop : Stop → Prop}

omit [SectorAccess] in
theorem Entry.inUse_eq_of_unlinked {e e' : Entry} (h : e.unlinked = e'.unlinked) :
    e.inUse = e'.inUse := by
  have := congrArg Entry.flags h
  rw [Entry.inUse, Entry.inUse]
  exact congrArg (·.getLsbD 0) this

omit [SectorAccess] in
theorem Entry.unlinked_withSibling {e e' : Entry} (h : e.unlinked = e'.unlinked) (f : U64) :
    { e with siblingIndex := f }.unlinked = { e' with siblingIndex := f }.unlinked := by
  simp only [Entry.unlinked, Entry.mk.injEq] at h ⊢
  tauto

namespace Grown

theorem getElem (h : Grown s l n s' l' n') (hk : k < l.length) :
    getElem l' k (hk.trans_le h.more.length_le) = l[k] := (h.more.getElem hk).symm

/-- An appended entry is not in use. -/
theorem not_inUse (h : Grown s l n s' l' n') (hk : k < l'.length) (new : l.length ≤ k) :
    (s'.node l'[k]).inUse = false := by
  have absent : l'[k] ∉ l := fun mem => by
    obtain ⟨j, hj, eq⟩ := List.mem_iff_getElem.mp mem
    rw [← h.getElem hj] at eq
    have := h.disk.nodup.getElem_inj_iff.mp eq
    omega
  rw [Entry.inUse, (h.fresh _ (List.getElem_mem hk) absent).2]
  rfl

theorem fileSystem (h : Grown s l n s' l' n') (fs : FileSystem s l n u) :
    FileSystem s' l' n' u := by
  refine ⟨h.disk, fs.used.trans_le h.more.length_le, fun k hk => ?_⟩
  by_cases old : k < l.length
  · rw [h.getElem old, Entry.inUse_eq_of_unlinked (h.kept _ (List.getElem_mem old)), fs.inUse k old]
  · have := fs.used
    rw [h.not_inUse hk (by omega)]
    simp
    omega

end Grown

/-! ## The first free entry -/

omit [SectorAccess] in
theorem slot_ofNat (hk : k < 2 ^ 64 - 1) : slot (BitVec.ofNat 64 k) = k := by
  have small : (BitVec.ofNat 64 k).toNat = k := by
    rw [BitVec.toNat_ofNat]
    omega
  rw [slot, if_neg, small]
  intro eq
  rw [eq] at small
  simp at small
  omega

theorem OutOfBlocks.mono {c : Stop} {k' : Nat} (h : OutOfBlocks n k c) (le : n + k ≤ n' + k') :
    OutOfBlocks n' k' c := ⟨h.1, h.2.trans_le le⟩

theorem findFreeEntryFrom_grows (strict : env.findFreeBlock = findBlock) (fuel : 2 ≤ env.fuel)
    (h : FileSystem s l n u) (long : 1 < l.length) (hk : k < l.length) (le : k ≤ u + 1) (hm : u + 1 < k + m) :
    Ends (OutOfBlocks n (u + 2 - l.length))
      (fun r => r.2 = BitVec.ofNat 64 (u + 1) ∧ ∃ l' n', GrownTo s l n (u + 2) r.1 l' n')
      (findFreeEntryFrom env m (BitVec.ofNat 64 (k + 1)) s (s.node l[k])) := by
  induction m generalizing s l n k with
  | zero => omega
  | succ m ih =>
    have round : BitVec.ofNat 64 (k + 1) + 1 = BitVec.ofNat 64 (k + 1 + 1) :=
      (BitVec.ofNat_add (k + 1) 1).symm
    have used := h.used
    rw [findFreeEntryFrom, h.inUse k hk]
    by_cases inUse : k ≤ u
    · rw [decide_eq_true inUse, if_pos rfl, round]
      have bound := h.length_le
      have := h.le_blocks
      have at_k : slot (BitVec.ofNat 64 (k + 1)) = k + 1 := slot_ofNat (by omega)
      have look := readEntry_grows strict fuel h.toDisk (by omega) (BitVec.ofNat 64 (k + 1))
      rw [at_k] at look
      have stop (c : Stop) (hc : OutOfBlocks n (k + 1 + 1 - l.length) c) :
          OutOfBlocks n (u + 2 - l.length) c := hc.mono (by omega)
      refine (look.mono stop fun _ => id).bind ?_
      rintro r ⟨l', n', b, grown, found, eq⟩
      obtain ⟨lt, rfl⟩ := List.getElem?_eq_some_iff.mp found
      have count := grown.count
      have size := grown.length
      dsimp only
      rw [eq]
      refine (ih (grown.fileSystem h) (by omega) lt (by omega) (by omega)).mono
        (fun e he => he.mono (by omega)) ?_
      rintro x ⟨free, l'', n'', grown'⟩
      exact ⟨free, l'', n'', grown.trans grown' (by omega)⟩
    · obtain rfl : k = u + 1 := by omega
      rw [decide_eq_false inUse, if_neg nofun]
      refine ⟨?_, l, n, .refl h.toDisk (by omega)⟩
      rw [BitVec.ofNat_add (u + 1) 1]
      exact BitVec.add_sub_cancel _ _

/-- `GemFS_FindFreeEntry` finds the entry after those in use, and makes it when there is none. -/
theorem findFreeEntry_grows (strict : env.findFreeBlock = findBlock) (fuel : 514 ≤ env.fuel)
    (h : FileSystem s l n u) (long : 1 < l.length) :
    Ends (OutOfBlocks n (u + 2 - l.length))
      (fun r => r.2 = BitVec.ofNat 64 (u + 1) ∧ ∃ l' n', GrownTo s l n (u + 2) r.1 l' n')
      (findFreeEntry env s) := by
  obtain ⟨r, rfl⟩ := h.exists_cons
  have := h.length_le
  have := h.le_blocks
  have := h.used
  exact findFreeEntryFrom_grows strict (by omega) h long (by simp) (by omega) (by omega)

/-! ## Registering a sibling -/

/-- The entry in place `j` of the chain, if any, gets the sibling `f`. -/
def relink (env : Env) (f : U64) (s : Volume) (l : List U64) : Option Nat → Volume
  | none => s
  | some j => putEntry env s (BitVec.ofNat 64 j) (l.getD j 0)
      { s.node (l.getD j 0) with siblingIndex := f }

theorem Disk.root_ofNat (h : Disk s l n) (hk : k < l.length) :
    BitVec.ofNat 64 k = 0 ↔ l[k] = 1 := by
  have small : (BitVec.ofNat 64 k).toNat = k := Nat.mod_eq_of_lt (hk.trans h.short)
  have := h.root (i := BitVec.ofNat 64 k) (by omega)
  simpa only [small] using this

theorem Disk.index_ofNat (h : Disk s l n) (hk : k < l.length) :
    (s.node l[k]).index = BitVec.ofNat 64 k := by
  apply BitVec.eq_of_toNat_eq
  rw [h.index_getElem hk]
  exact (Nat.mod_eq_of_lt (hk.trans h.short)).symm

section Relink

variable {o : Option Nat} (h : Disk s l n) (ho : ∀ j ∈ o, j < l.length)
include h ho

theorem Disk.relink : Disk (relink env f s l o) l n := by
  cases o with
  | none => exact h
  | some j =>
    have hj := ho j rfl
    have eq : l.getD j 0 = l[j] := by simp [hj]
    rw [GemFS.relink, eq]
    exact h.put_keep_at env hj (h.root_ofNat hj) (h.index_getElem hj) rfl

theorem node_relink (hk : k < l.length) : (GemFS.relink env f s l o).node l[k] =
    if o = some k then { s.node l[k] with siblingIndex := f } else s.node l[k] := by
  cases o with
  | none => rfl
  | some j =>
    have hj := ho j rfl
    have eq : l.getD j 0 = l[j] := by simp [hj]
    rw [GemFS.relink, eq, node_putEntry _ _ h.plain (h.root_ofNat hj)]
    have same : l[k] = l[j] ↔ some j = some k := by
      rw [h.nodup.getElem_inj_iff, Option.some_inj, eq_comm]
    by_cases eq : some j = some k
    · obtain rfl := Option.some_inj.mp eq
      simp
    · rw [if_neg (mt same.mp eq), if_neg eq]

theorem block_relink {c : U64} (hc : c ∉ l) :
    (GemFS.relink env f s l o).block c = s.block c := by
  cases o with
  | none => rfl
  | some j =>
    have hj := ho j rfl
    have eq : l.getD j 0 = l[j] := by simp [hj]
    rw [GemFS.relink, eq]
    exact block_putEntry h.plain (h.root_ofNat hj) fun same => hc (same ▸ List.getElem_mem hj)

theorem Faithful.relink (hf : Faithful s l) : Faithful (GemFS.relink env f s l o) l := by
  cases o with
  | none => exact hf
  | some j =>
    have hj := ho j rfl
    have eq : l.getD j 0 = l[j] := by simp [hj]
    rw [GemFS.relink, eq]
    exact Faithful.put_at env h hj (h.root_ofNat hj) (h.index_getElem hj) (h.index_ofNat hj) hf

end Relink

omit [SectorAccess] in
theorem lbaStart_relink (o : Option Nat) : (relink env f s l o).lbaStart = s.lbaStart := by
  cases o <;> simp [relink]

variable (env f) in
theorem FileSystem.relink {o : Option Nat} (h : FileSystem s l n u) (ho : ∀ j ∈ o, j < l.length) :
    FileSystem (relink env f s l o) l n u where
  toDisk := h.toDisk.relink ho
  used := h.used
  inUse k hk := by
    rw [node_relink h.toDisk ho hk, ← h.inUse k hk]
    split_ifs <;> rfl

/-! ## Calls within the chain -/

theorem Disk.readEntry_eq (h : Disk s l n) (fuel : 0 < env.fuel) (hk : k < l.length) :
    readEntry env (BitVec.ofNat 64 k) s = .ok (s, s.node l[k]) := by
  obtain ⟨d, hd⟩ : ∃ d, env.fuel = d + 1 := ⟨env.fuel - 1, by omega⟩
  have small : (BitVec.ofNat 64 k).toNat = k := Nat.mod_eq_of_lt (hk.trans h.short)
  have := h.read env (BitVec.ofNat 64 k) d (by omega)
  rw [GemFS.readEntry, getEntryBlock, hd, this]
  simp only [small]

theorem Disk.writeEntry_eq (h : Disk s l n) (fuel : 0 < env.fuel) (hk : k < l.length) :
    writeEntry env (BitVec.ofNat 64 k) e s =
      .ok (putEntry env s (BitVec.ofNat 64 k) l[k] e) := by
  obtain ⟨d, hd⟩ : ∃ d, env.fuel = d + 1 := ⟨env.fuel - 1, by omega⟩
  have small : (BitVec.ofNat 64 k).toNat = k := Nat.mod_eq_of_lt (hk.trans h.short)
  have := h.write env (BitVec.ofNat 64 k) d e (by omega)
  rw [GemFS.writeEntry, getEntryBlock, hd, this]
  simp only [small]

/-! ## The steps of `GemFS_mkdir` -/

/-- The parent as `GemFS_mkdir` writes it back. -/
def parentAfter (e : Entry) (f : U64) : Entry := if e.start = 0 then { e with start := f } else e

omit [SectorAccess] in
@[simp] theorem index_parentAfter : (parentAfter e f).index = e.index := by
  rw [parentAfter]; split_ifs <;> rfl

omit [SectorAccess] in
@[simp] theorem nextIndexStart_parentAfter :
    (parentAfter e f).nextIndexStart = e.nextIndexStart := by
  rw [parentAfter]; split_ifs <;> rfl

omit [SectorAccess] in
theorem unlinked_parentAfter {e e' : Entry} (h : e.unlinked = e'.unlinked) (f : U64) :
    (parentAfter e f).unlinked = (parentAfter e' f).unlinked := by
  have start := congrArg Entry.start h
  change e.start = e'.start at start
  rw [parentAfter, parentAfter, start]
  split_ifs
  · simp only [Entry.unlinked, Entry.mk.injEq] at h ⊢
    tauto
  · exact h

/-- The volume once a free entry and the parent are found. -/
structure Found (s : Volume) (l : List U64) (n u : Nat) (p : U64) (s' : Volume) (l' : List U64)
    (n' : Nat) (b : U64) : Prop extends Grown s l n s' l' n' where
  length : l'.length = max l.length (max (u + 2) (slot p + 1))
  parent : l'[slot p]? = some b

/-- The volume once a block is marked too. -/
structure Prepared (s : Volume) (l : List U64) (n u : Nat) (p : U64) (s' : Volume) (l' : List U64)
    (n' : Nat) (b : U64) : Prop extends Found s l n u p s' l' n' b where
  count : n' + l.length = n + l'.length + 1
  block : slot p ≤ u → ∀ c ∈ l', c ∉ l → n ≤ c.toNat ∧ c.toNat + 1 < n'

variable {args : CreateArgs}

theorem mkdir_ends {post : Volume × U64 → Prop}
    {R : Volume → List U64 → Nat → Volume → List U64 → Nat → Option Nat → Prop}
    (strict : env.findFreeBlock = findBlock) (fuel : 514 ≤ env.fuel) (h : FileSystem s l n u)
    (long : 1 < l.length) (hf : f = BitVec.ofNat 64 (u + 1))
    (full : ∀ c, OutOfBlocks n (max (u + 2) (slot args.parentIndex + 1) - l.length + 1) c → stop c)
    (overrun : 128 < args.nameLen.toNat → stop .overrun)
    (register : ∀ s₂ l₂ n₂ b, Prepared s l n u args.parentIndex s₂ l₂ n₂ b →
      Ends stop (fun s' => ∃ t l₃ n₃ o, Grown s₂ l₂ n₂ t l₃ n₃ ∧ (∀ j ∈ o, j < l₃.length) ∧
        R s₂ l₂ n₂ t l₃ n₃ o ∧ s' = relink env f t l₃ o) (registerSibling env (s₂.node b) f s₂))
    (last : ∀ s₂ l₂ n₂ b t l₃ n₃ o, Prepared s l n u args.parentIndex s₂ l₂ n₂ b →
      Grown s₂ l₂ n₂ t l₃ n₃ → (∀ j ∈ o, j < l₃.length) → R s₂ l₂ n₂ t l₃ n₃ o →
      ∀ hk : u + 1 < l₃.length,
      Ends stop post (do
        let s ← writeEntry env args.parentIndex (parentAfter (s₂.node b) f)
          (putEntry env (relink env f t l₃ o) f l₃[u + 1] (newDir args f))
        return (s, f))) :
    Ends stop post (mkdir env args s) := by
  have found := findFreeEntry_grows strict fuel h long
  refine (found.mono (fun c hc => full c (hc.mono (by omega))) fun _ => id).bind ?_
  rintro ⟨s₁, f'⟩ ⟨eq, l₁, n₁, grown⟩
  obtain rfl : f' = f := eq.trans hf.symm
  have length := grown.length
  have count := grown.count
  have used := h.used
  have fs := grown.fileSystem h
  have block : env.findFreeBlock s₁ = if n₁ < capacity then .ok (BitVec.ofNat 64 n₁) else .error .noBlock :=
    (congrFun strict s₁).trans (findBlock_of_disk grown.disk)
  dsimp only
  by_cases room : n₁ < capacity
  swap
  · rw [block, if_neg room]
    exact full _ ⟨rfl, by omega⟩
  rw [block, if_pos room, ok_bind, fbbSetBlock_of_plain fs.plain, ok_bind]
  have marked := Grown.mark grown.disk room
  have hk : u + 1 < l₁.length := by omega
  rw [hf, marked.disk.readEntry_eq (by omega) hk, ok_bind, ← hf]
  have look := readEntry_grows strict (by omega) marked.disk (by omega) args.parentIndex
  refine (look.mono (fun c hc => full c (hc.mono (by omega))) fun _ => id).bind ?_
  rintro ⟨s₂, e₂⟩ ⟨l₂, n₂, b, grown₂, parent, eq₂⟩
  obtain rfl : e₂ = s₂.node b := eq₂
  have length₂ := grown₂.length
  have count₂ := grown₂.count
  have prepared : Prepared s l n u args.parentIndex s₂ l₂ n₂ b := by
    refine ⟨⟨(grown.toGrown.trans marked).trans grown₂.toGrown, by omega, parent⟩, by omega,
      fun low c hc absent => ?_⟩
    rw [← grown₂.more.eq_of_length (by omega)] at hc
    have := (grown.fresh c hc absent).1
    have := grown.disk.placed c hc
    have := grown₂.le
    omega
  refine (register s₂ l₂ n₂ b prepared).bind ?_
  rintro _ ⟨t, l₃, n₃, o, grown₃, ho, hR, rfl⟩
  have hk₃ : u + 1 < l₃.length := by have := grown₃.more.length_le; omega
  by_cases fits : args.nameLen.toNat ≤ 128
  · rw [copyName, if_pos fits, ok_bind, hf, (grown₃.disk.relink ho).writeEntry_eq (by omega) hk₃, ok_bind, ← hf]
    exact last s₂ l₂ n₂ b t l₃ n₃ o prepared grown₃ ho hR hk₃
  · rw [copyName, if_neg fits]
    exact overrun (by omega)

/-! ## A parent in use -/

/-- The entry in place `k` after `GemFS_mkdir` with the parent `p`, where the last child is in place
`o`, was `e` before. -/
def entryAfter (f : U64) (p : Nat) (o : Option Nat) (k : Nat) (e : Entry) : Entry :=
  if k = p then parentAfter e f else if o = some k then { e with siblingIndex := f } else e

/-- The entries after `GemFS_mkdir` wrote the entry `e`: there are `u + 2`, and those up to `u` have
changed for the new child only. -/
structure Made (s : Volume) (l : List U64) (n u p : Nat) (o : Option Nat) (e : Entry) (s' : Volume)
    (l' : List U64) (n' : Nat) : Prop where
  disk : Disk s' l' n'
  length : l'.length = u + 2
  more : l.take (u + 2) <+: l'
  le : n ≤ n'
  old : ∀ k (hk : k < l.length) (hk' : k < l'.length), k ≤ u →
    (s'.node l'[k]).unlinked =
      (entryAfter (BitVec.ofNat 64 (u + 1)) p o k (s.node l[k])).unlinked
  new : ∀ hk : u + 1 < l'.length, (s'.node l'[u + 1]).unlinked = e.unlinked
  frame : ∀ b ∉ l, b ≠ 4 → b.toNat < n ∨ n' ≤ b.toNat → SameBytes (s'.block b) (s.block b)
  faithful : Faithful s l → Faithful s' l'
  lbaStart : s'.lbaStart = s.lbaStart

variable (env) in
theorem made_of_found {o : Option Nat} {s₂ : Volume} {l₂ l₃ : List U64} {n₂ n₃ : Nat} {pe : Nat}
    (fuel : 0 < env.fuel) (h : FileSystem s l n u) (hf : f = BitVec.ofNat 64 (u + 1))
    (hp : args.parentIndex = BitVec.ofNat 64 pe) (low : pe ≤ u)
    (found : Found s l n u args.parentIndex s₂ l₂ n₂ b) (grown : Grown s₂ l₂ n₂ t l₃ n₃)
    (ho : ∀ j ∈ o, j < l₃.length) (hk : u + 1 < l₃.length) :
    ∃ s', writeEntry env args.parentIndex (parentAfter (s₂.node b) f)
        (putEntry env (relink env f t l₃ o) f l₃[u + 1] (newDir args f)) = .ok s' ∧
      Made s l n u pe o (newDir args f) s' (l₃.take (u + 2)) n₃ := by
  have fs₂ := found.toGrown.fileSystem h
  have fs₃ := grown.fileSystem fs₂
  have fsr := fs₃.relink env f ho
  have all := found.toGrown.trans grown
  have used := h.used
  -- the new entry ends the chain
  have root : f = 0 ↔ l₃[u + 1] = 1 := by rw [hf]; exact fs₃.root_ofNat hk
  have at_f : (newDir args f).index.toNat = u + 1 := by
    rw [hf]
    exact Nat.mod_eq_of_lt (hk.trans fs₃.short)
  have disk₇ := fsr.toDisk.put_cut_at env hk root at_f rfl
  have node₇ := node_putEntry env (newDir args f) fsr.plain root
  have len : (l₃.take (u + 1 + 1)).length = u + 2 := by rw [List.length_take]; omega
  have le₂ : u + 1 < l₂.length := by have := found.length; omega
  have here₂ : l₂[pe] = b := by
    have := found.parent
    rw [hp, slot_ofNat (by have := h.short; omega)] at this
    exact (List.getElem?_eq_some_iff.mp this).2
  have hpe : pe < (l₃.take (u + 1 + 1)).length := by omega
  have here : (l₃.take (u + 1 + 1))[pe] = b := by
    rw [List.getElem_take, grown.getElem (by omega), here₂]
  -- and its parent keeps its link, as it is before the new entry
  have keep : (parentAfter (s₂.node b) f).nextIndexStart =
      (putEntry env (relink env f t l₃ o) f l₃[u + 1] (newDir args f)).next
        (l₃.take (u + 1 + 1))[pe] := by
    have next₂ := fs₂.entries.linked.next_getElem (k := pe) (by omega)
    have next₇ := disk₇.entries.linked.next_getElem (k := pe) (by omega)
    rw [next₇, List.getElem_take, grown.getElem (by omega), ← next₂, here₂,
      nextIndexStart_parentAfter]
    rfl
  have at_p : (parentAfter (s₂.node b) f).index.toNat = pe := by
    rw [index_parentAfter, ← here₂]
    exact fs₂.index_getElem (by omega)
  have root₈ := disk₇.root_ofNat hpe
  have disk₈ := disk₇.put_keep_at env hpe root₈ at_p keep
  have node₈ := node_putEntry env (parentAfter (s₂.node b) f) disk₇.plain root₈
  refine ⟨_, by rw [hp]; exact disk₇.writeEntry_eq fuel hpe, disk₈, len, ?_, all.le, ?_, ?_, ?_, ?_,
    ?_⟩
  · exact all.more.take (u + 2)
  · intro k hk hk' le
    have same : (l₃.take (u + 1 + 1))[k] = (l₃.take (u + 1 + 1))[pe] ↔ k = pe :=
      disk₇.nodup.getElem_inj_iff
    rw [node₈, entryAfter, ← hf]
    by_cases eq : k = pe
    · rw [if_pos (same.mpr eq), if_pos eq]
      subst eq
      refine unlinked_parentAfter ?_ f
      have kept := found.kept l[k] (List.getElem_mem hk)
      rwa [← found.getElem hk, here₂] at kept ⊢
    · have other : l₃[k] ≠ l₃[u + 1] := fun eq => by
        have := fs₃.nodup.getElem_inj_iff.mp eq
        omega
      rw [if_neg (mt same.mp eq), if_neg eq, List.getElem_take, node₇, if_neg other,
        node_relink fs₃.toDisk ho (by omega)]
      have kept := all.kept l[k] (List.getElem_mem hk)
      rw [← all.getElem hk] at kept
      split_ifs
      · exact Entry.unlinked_withSibling (by rw [kept, all.getElem hk]) f
      · rw [kept, all.getElem hk]
  · intro hk'
    have other : (l₃.take (u + 1 + 1))[u + 1] ≠ (l₃.take (u + 1 + 1))[pe] := fun eq => by
      have := disk₇.nodup.getElem_inj_iff.mp eq
      omega
    rw [node₈, if_neg other, List.getElem_take, node₇, if_pos rfl]
  · intro c absent h4 outside
    have hc : c ∉ l₃ := fun mem => by
      have := (all.fresh c mem absent).1
      have := all.disk.placed c mem
      omega
    have parent : c ≠ (l₃.take (u + 1 + 1))[pe] := fun eq =>
      hc (List.mem_of_mem_take (eq ▸ List.getElem_mem hpe))
    have last : c ≠ l₃[u + 1] := fun eq => hc (eq ▸ List.getElem_mem hk)
    rw [block_putEntry disk₇.plain root₈ parent, block_putEntry fsr.plain root last,
      block_relink fs₃.toDisk ho hc]
    exact all.frame c hc h4
  · intro faithful
    have third : Faithful (relink env f t l₃ o) l₃ :=
      Faithful.relink fs₃.toDisk ho (all.faithful faithful)
    have fourth : Faithful _ (l₃.take (u + 1 + 1)) := fun c hc =>
      Faithful.put_at env fsr.toDisk hk root at_f rfl third c (List.mem_of_mem_take hc)
    refine Faithful.put_at env disk₇ hpe root₈ at_p ?_ fourth
    rw [index_parentAfter, ← here₂]
    exact fs₂.index_ofNat _
  · rw [lbaStart_putEntry, lbaStart_putEntry, lbaStart_relink, all.lbaStart]

end ChudOS.GemFS
