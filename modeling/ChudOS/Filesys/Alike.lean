import ChudOS.Filesys.EntryChain
import ChudOS.Filesys.PathLookup
import ChudOS.Library.Coupling
import Mathlib.Data.Set.Insert

/-!
# Volumes with the same entries

Two volumes that have the same bitmap and the same main entry, and the same entries in the blocks
that a walk from the main entry passes. What else is on the two disks may differ. A call on one of
them does what it does on the other, and leaves them alike.

While a block is free, no walk reaches block 0. When none is, the kernel's search returns the same
number again and again (`pastEnd`), and the walk that has linked it to itself goes on from block 0:
then block 0 has to be among the blocks that are the same.

## Main definitions

* `Shared` — the blocks with the same entry, and whether the search has come to the end.
* `Alike` — the relation between the volumes.
-/

namespace ChudOS.GemFS

open Volume LinkedChain Outcome Coupling

variable [SectorAccess]

/-- What two volumes are known to share. -/
structure Shared where
  blocks : Set U64
  /-- No block is free, and `pastEnd` is one of the shared blocks. -/
  full : Prop

instance : Preorder Shared where
  le x y := x.blocks ⊆ y.blocks ∧ (x.full → y.full)
  le_refl _ := ⟨subset_rfl, id⟩
  le_trans _ _ _ h h' := ⟨h.1.trans h'.1, h'.2 ∘ h.2⟩

def Shared.add (x : Shared) (b : U64) : Shared := ⟨insert b x.blocks, x.full⟩

/-- An entry that links to a shared block, if to any. -/
def Links (x : Shared) (e : Entry) : Prop := e.nextIndexStart = 0 ∨ e.nextIndexStart ∈ x.blocks

/-- An entry that may be the main entry. -/
structure Rooted (x : Shared) (e : Entry) : Prop where
  links : Links x e
  live : x.full ∨ e.nextIndexStart ≠ 0 ∧ e.inUse = true

/-- An entry that may be written under its own index. -/
structure Sound (x : Shared) (e : Entry) : Prop where
  links : Links x e
  live : x.full ∨ (e.index = 0 → e.nextIndexStart ≠ 0 ∧ e.inUse = true)

structure Alike (env : Env) (x : Shared) (s t : Volume) : Prop where
  plain : s.Plain
  main : t.main = s.main
  lbaStart : t.lbaStart = s.lbaStart
  sectorCount : t.sectorCount = s.sectorCount
  cached : s.Cached
  cached' : t.Cached
  marks : ∀ b, fbbGetBlock t b = fbbGetBlock s b
  same : ∀ b ∈ x.blocks, t.node b = s.node b
  apart : ∀ b ∈ x.blocks, b ≠ 1 ∧ b ≠ 4
  marked : ∀ b ∈ x.blocks, b.toNat < capacity → fbbGetBlock s b = true
  reserved : ∀ b : U64, b.toNat < 6 → fbbGetBlock s b = true
  root : Rooted x (s.node 1)
  links : ∀ b ∈ x.blocks, Links x (s.node b)
  live : ∀ b ∈ x.blocks, b ≠ 0 → Sound x (s.node b)
  boot : 0 ∈ x.blocks → x.full ∨ s.next 0 = 0
  full : x.full → (∀ b : U64, b.toNat < capacity → fbbGetBlock s b = true) ∧ pastEnd s ∈ x.blocks ∧
    0 ∈ x.blocks
  geometry : 0 ∈ x.blocks → 6 ≤ s.sectorCount.toNat
  search : env.findFreeBlock = findBlock ∨ env.findFreeBlock = findFreeBlock ∧ 0 ∈ x.blocks

variable {env : Env} {x y : Shared} {s s' t t' : Volume} {a b z i : U64} {d n : Nat} {e : Entry}
  {flags : U8} {p : List U64}

/-- It is none of the reserved blocks. -/
theorem le_pastEnd (h : 6 ≤ s.sectorCount.toNat) : 7 ≤ (pastEnd s).toNat := by
  have := s.sectorCount.isLt
  have one : (1 : U64).toNat = 1 := rfl
  rw [pastEnd]
  split_ifs
  · simp only [BitVec.toNat_add, BitVec.toNat_setWidth]
    omega
  · decide

omit [SectorAccess] in
theorem le_add : x ≤ x.add b := ⟨Set.subset_insert b x.blocks, id⟩

omit [SectorAccess] in
theorem Links.mono (h : Links x e) (le : x ≤ y) : Links y e := h.imp_right fun hx => le.1 hx

omit [SectorAccess] in
theorem Rooted.mono (h : Rooted x e) (le : x ≤ y) : Rooted y e :=
  ⟨h.links.mono le, h.live.imp_left le.2⟩

omit [SectorAccess] in
theorem Sound.mono (h : Sound x e) (le : x ≤ y) : Sound y e :=
  ⟨h.links.mono le, h.live.imp_left le.2⟩

omit [SectorAccess] in
theorem Rooted.sound (h : Rooted x e) : Sound x e := ⟨h.links, h.live.imp_right fun hx _ => hx⟩

omit [SectorAccess] in
theorem Sound.rooted (h : Sound x e) (zero : e.index = 0) : Rooted x e :=
  ⟨h.links, h.live.imp_right fun hx => hx zero⟩

/-! ## The search for a block -/

namespace Alike

theorem plain' (h : Alike env x s t) : t.Plain := by
  rw [Plain, h.main]
  exact h.plain

theorem findFreeBlock_eq (h : Alike env x s t) : findFreeBlock t = findFreeBlock s := by
  have bits : fbbGetBlock t = fbbGetBlock s := funext h.marks
  rw [findFreeBlock, findFreeBlock, blockSize_of_plain h.plain, blockSize_of_plain h.plain', bits,
    h.sectorCount]

theorem search_eq (h : Alike env x s t) : env.findFreeBlock t = env.findFreeBlock s := by
  obtain eq | ⟨eq, -⟩ := h.search
  · have bits : fbbGetBlock t = fbbGetBlock s := funext h.marks
    rw [eq, findBlock, findBlock, h.findFreeBlock_eq, bits]
  · rw [eq, h.findFreeBlock_eq]

theorem saturate (h : Alike env x s t)
    (all : ∀ b : U64, b.toNat < capacity → fbbGetBlock s b = true) (last : pastEnd s ∈ x.blocks)
    (zero : 0 ∈ x.blocks) : Alike env ⟨x.blocks, True⟩ s t :=
  have le : x ≤ ⟨x.blocks, True⟩ := ⟨subset_rfl, fun _ => trivial⟩
  { h with
    root := h.root.mono le
    links := fun b hb => (h.links b hb).mono le
    live := fun b hb nonzero => (h.live b hb nonzero).mono le
    boot := fun _ => .inl trivial
    full := fun _ => ⟨all, last, zero⟩ }

/-- A search finds a block that is not shared yet, or there is no free block any more. -/
theorem found (h : Alike env x s t) (eq : env.findFreeBlock s = .ok b) :
    (¬x.full ∧ b ∉ x.blocks ∧ b ≠ 0 ∧ b ≠ 1 ∧ b ≠ 4) ∨
      (b ∈ x.blocks ∧ Alike env ⟨x.blocks, True⟩ s t) := by
  have free (low : b.toNat < capacity) (unmarked : fbbGetBlock s b = false) :
      ¬x.full ∧ b ∉ x.blocks ∧ b ≠ 0 ∧ b ≠ 1 ∧ b ≠ 4 := by
    have clash (marked : fbbGetBlock s b = true) : False := by simp [unmarked] at marked
    have above : ¬b.toNat < 6 := fun lt => clash (h.reserved b lt)
    refine ⟨fun full => clash ((h.full full).1 b low), fun mem => clash (h.marked b mem low), ?_, ?_,
      ?_⟩ <;> exact fun eq => above (by rw [eq]; decide)
  obtain ⟨c, result, cases⟩ := findFreeBlock_cases h.plain
  obtain strict | ⟨kernel, zero⟩ := h.search
  · rw [strict, findBlock, result, ok_bind] at eq
    split_ifs at eq with unmarked
    obtain rfl : c = b := Except.ok.inj eq
    exact .inl (free unmarked.2 unmarked.1)
  · rw [kernel, result] at eq
    obtain rfl : c = b := Except.ok.inj eq
    obtain ⟨low, unmarked⟩ | ⟨all, last⟩ := cases
    · exact .inl (free low unmarked.1)
    · by_cases mem : c ∈ x.blocks
      · exact .inr ⟨mem, h.saturate all (last ▸ mem) zero⟩
      · have big : 7 ≤ c.toNat := last ▸ le_pastEnd (h.geometry zero)
        refine .inl ⟨fun full => mem (last ▸ (h.full full).2.1), mem, ?_, ?_, ?_⟩ <;>
          exact fun eq => absurd big (by rw [eq]; decide)

/-! ## Writes -/

theorem mark (h : Alike env x s t) (b : U64) : Alike env x (s.mark b) (t.mark b) := by
  have bits (c : U64) (marked : fbbGetBlock s c = true) : fbbGetBlock (s.mark b) c = true := by
    rw [fbbGetBlock_mark h.plain, marked, Bool.true_or]
  have node (c : U64) (hc : c ≠ 4) := @node_mark s b c _ h.plain hc
  have shared (c : U64) (hc : c ∈ x.blocks) := node c (h.apart c hc).2
  refine ⟨plain_mark.mpr h.plain, by simp [h.main], by simp [h.lbaStart], by simp [h.sectorCount],
    cached_mark h.plain h.cached, cached_mark h.plain' h.cached', fun c => ?_, fun c hc => ?_,
    h.apart, fun c hc low => bits c (h.marked c hc low), fun c low => bits c (h.reserved c low),
    ?_, fun c hc => ?_, fun c hc nonzero => ?_, fun mem => ?_, fun full => ?_, ?_, h.search⟩
  · rw [fbbGetBlock_mark h.plain', fbbGetBlock_mark h.plain, h.marks]
  · rw [node_mark h.plain' (h.apart c hc).2, shared c hc, h.same c hc]
  · rw [node 1 (by decide)]
    exact h.root
  · rw [shared c hc]
    exact h.links c hc
  · rw [shared c hc]
    exact h.live c hc nonzero
  · rw [Volume.next, node 0 (by decide)]
    exact h.boot mem
  · obtain ⟨all, last, zero⟩ := h.full full
    refine ⟨fun c low => bits c (all c low), ?_, zero⟩
    rwa [pastEnd, sectorCount_mark]
  · rw [sectorCount_mark]
    exact h.geometry

theorem put (h : Alike env x s t) (root : i = 0 ↔ b = 1) (place : b = 1 ∨ b ∈ x.blocks)
    (other : x.full ∨ b ≠ 0) (sound : Sound x e) (rooted : i = 0 → Rooted x e) :
    Alike env x (putEntry env s i b e) (putEntry env t i b e) := by
  have four : b ≠ 4 := place.elim (fun eq => eq ▸ by decide) fun hb => (h.apart b hb).2
  have bits := @fbbGetBlock_putEntry env s b i e _ h.plain root four
  have node := node_putEntry env e h.plain root
  refine ⟨plain_putEntry.mpr h.plain, ?_, by simp [h.lbaStart], by simp [h.sectorCount],
    cached_putEntry h.plain root h.cached, cached_putEntry h.plain' root h.cached', fun c => ?_,
    fun c hc => ?_, h.apart, fun c hc low => ?_, fun c low => ?_, ?_, fun c hc => ?_,
    fun c hc nonzero => ?_, fun mem => ?_, fun full => ?_, ?_, h.search⟩
  · rw [main_putEntry, main_putEntry, h.main]
  · rw [fbbGetBlock_putEntry h.plain' root four, bits, h.marks]
  · rw [node_putEntry env e h.plain' root, node, h.same c hc]
  · rw [bits, h.marked c hc low]
  · rw [bits, h.reserved c low]
  · rw [node]
    split_ifs with eq
    · exact rooted (root.mpr eq.symm)
    · exact h.root
  · rw [node]
    split_ifs
    · exact sound.links
    · exact h.links c hc
  · rw [node]
    split_ifs
    · exact sound
    · exact h.live c hc nonzero
  · obtain full | ne := other
    · exact .inl full
    · rw [Volume.next, node, if_neg ne.symm]
      exact h.boot mem
  · obtain ⟨all, last, zero⟩ := h.full full
    refine ⟨fun c low => by rw [bits, all c low], ?_, zero⟩
    rwa [pastEnd, sectorCount_putEntry]
  · rw [sectorCount_putEntry]
    exact h.geometry

/-- An entry is created at the end of the chain, in a block that was not shared before. -/
theorem extend (h : Alike env x s t) (chance : env.rawEntry t = env.rawEntry s)
    (regular : ¬x.full) (listed : Listed s (p ++ [z])) (listed' : Listed t (p ++ [z]))
    (hi : i.toNat = p.length + 1) (place : z = 1 ∨ z ∈ x.blocks) (hb : b ∉ p ++ [z])
    (zero : b ≠ 0) (one : b ≠ 1) (four : b ≠ 4) :
    Alike env (x.add b) (GemFS.extend env s i z b flags) (GemFS.extend env t i z b flags) := by
  have le : x ≤ x.add b := le_add
  have mem : b ∈ (x.add b).blocks := Set.mem_insert b x.blocks
  have apart (c : U64) (hc : c ∈ (x.add b).blocks) : c ≠ 1 ∧ c ≠ 4 := by
    obtain rfl | hc := hc
    · exact ⟨one, four⟩
    · exact h.apart c hc
  have nonzero : i ≠ 0 := fun eq => by
    rw [eq] at hi
    exact absurd hi.symm (Nat.succ_ne_zero _)
  have node (c : U64) (hc : c ≠ 4) := node_extend env flags listed hi hb c hc
  have node' (c : U64) (hc : c ≠ 4) := node_extend env flags listed' hi hb c hc
  have bits := @fbbGetBlock_extend env s b z i flags p _ listed hi hb four
  have bits' := @fbbGetBlock_extend env t b z i flags p _ listed' hi hb four
  have last : t.node z = s.node z := by
    obtain rfl | hz := place
    · rw [Volume.node, Volume.node, if_pos rfl, if_pos rfl, h.main]
    · exact h.same z hz
  have kept (c : U64) (marked : fbbGetBlock s c = true) :
      fbbGetBlock (GemFS.extend env s i z b flags) c = true := by
    rw [bits, marked, Bool.true_or]
  have ended : (s.node z).nextIndexStart = 0 := listed.linked.next_last
  have plain := (listed.mark b).plain
  have plain' := (listed'.mark b).plain
  have main (v : Volume) (same : v.main = s.main) (hz : (v.mark b).node z = s.node z) :
      (GemFS.extend env v i z b flags).main =
        if i - 1 = 0 then { s.main with entry := { s.node z with nextIndexStart := b } }
        else s.main := by
    rw [GemFS.extend, main_putEntry, if_neg nonzero, main_putEntry, main_mark, same, hz]
  have hz : z ≠ 4 := ne_of_mem_of_not_mem (by simp) listed.apart
  refine ⟨plain_putEntry.mpr (plain_putEntry.mpr plain), ?_, by simp [GemFS.extend, h.lbaStart],
    by simp [GemFS.extend, h.sectorCount], ?_, ?_, fun c => ?_, fun c hc => ?_, apart,
    fun c hc low => ?_, fun c low => kept c (h.reserved c low), ?_, fun c hc => ?_,
    fun c hc nz => ?_, fun hc => .inr ?_, fun full => absurd full regular, fun hc => ?_,
    h.search.imp_right fun hx => ⟨hx.1, le.1 hx.2⟩⟩
  · rw [main t h.main (by rw [node_mark h.plain' hz, last]), main s rfl (node_mark h.plain hz)]
  · exact cached_putEntry (plain_putEntry.mpr plain) (root_new listed hi hb)
      (cached_putEntry plain (root_pred listed hi) (listed.mark b).cached)
  · exact cached_putEntry (plain_putEntry.mpr plain') (root_new listed' hi hb)
      (cached_putEntry plain' (root_pred listed' hi) (listed'.mark b).cached)
  · rw [bits', bits, h.marks]
  · rw [node c (apart c hc).2, node' c (apart c hc).2, chance, last]
    obtain rfl | hc := hc
    · rw [if_pos rfl, if_pos rfl]
    · rw [h.same c hc]
  · obtain rfl | hc := hc
    · rw [bits]
      simp [low]
    · exact kept c (h.marked c hc low)
  · rw [node 1 (by decide), if_neg one.symm]
    split_ifs with eq
    · have inUse := (h.root.live.resolve_left regular).2
      rw [eq] at inUse
      exact ⟨.inr mem, .inr ⟨zero, inUse⟩⟩
    · exact h.root.mono le
  · rw [node c (apart c hc).2]
    split_ifs with new eq
    · exact .inl rfl
    · exact .inr mem
    · exact (h.links c (hc.resolve_left new)).mono le
  · rw [node c (apart c hc).2]
    split_ifs with new eq
    · exact ⟨.inl rfl, .inr fun index => absurd index nonzero⟩
    · -- the last entry linked to none, so its index is not 0
      have old := (h.live c (hc.resolve_left new) nz).live.resolve_left regular
      exact ⟨.inr mem, .inr fun index => absurd ended (eq ▸ old (eq ▸ index)).1⟩
    · exact (h.live c (hc.resolve_left new) nz).mono le
  · rw [Volume.next, node 0 (by decide), if_neg zero.symm,
      if_neg (listed.linked.ne_null (by simp)).symm]
    exact (h.boot (hc.resolve_left zero.symm)).resolve_left regular
  · rw [show (GemFS.extend env s i z b flags).sectorCount = s.sectorCount by simp [GemFS.extend]]
    exact h.geometry (hc.resolve_left zero.symm)

end Alike

/-! ## Finding an entry -/

/-- The blocks found for an index. -/
structure Located (env : Env) (i : U64) (x : Shared) (r r' : Volume × U64) : Prop where
  alike : Alike env x r.1 r'.1
  same : r'.2 = r.2
  root : i = 0 → r.2 = 1
  place : i ≠ 0 → r.2 ∈ x.blocks ∧ (x.full ∨ r.2 ≠ 0)

/-- The entries read under an index. -/
structure Read (env : Env) (i : U64) (x : Shared) (r r' : Volume × Entry) : Prop where
  alike : Alike env x r.1 r'.1
  same : r'.2 = r.2
  sound : Sound x r.2
  rooted : i = 0 → Rooted x r.2

section Locate

variable {locate : U64 → Volume → Except Stop (Volume × U64)}

theorem Alike.sound (h : Alike env x s t) (hb : b ∈ x.blocks) (hx : x.full ∨ b ≠ 0) :
    Sound x (s.node b) := by
  by_cases zero : b = 0
  · exact ⟨h.links b hb, .inl (hx.resolve_right (absurd zero))⟩
  · exact h.live b hb zero

theorem readEntryAt_coupled (loc : Coupled x (Located env i) (locate i s) (locate i t)) :
    Coupled x (Read env i) (readEntryAt locate i s) (readEntryAt locate i t) := by
  refine loc.bind fun y r r' le h => ?_
  obtain ⟨s, b⟩ := r
  obtain ⟨t, b'⟩ := r'
  obtain ⟨alike, same, root, place⟩ := h
  obtain rfl : b' = b := same
  by_cases zero : i = 0
  · simp only [if_pos zero, readMainEntry_of_cached alike.cached,
      readMainEntry_of_cached alike.cached']
    exact .return ⟨alike, congrArg Main.entry alike.main, alike.root.sound, fun _ => alike.root⟩
  · obtain ⟨hb, live⟩ := place zero
    have one := (alike.apart b' hb).1
    have node : s.node b' = s.entryIn b' := if_neg one
    have node' : t.node b' = t.entryIn b' := if_neg one
    simp only [if_neg zero]
    refine .return ⟨alike, ?_, ?_, fun eq => absurd eq zero⟩
    · rw [← node, ← node', alike.same b' hb]
    · rw [← node]
      exact alike.sound hb live

theorem writeEntryAt_coupled (loc : Coupled x (Located env i) (locate i s) (locate i t))
    (sound : Sound x e) (rooted : i = 0 → Rooted x e) :
    Coupled x (Alike env) (writeEntryAt env locate i e s) (writeEntryAt env locate i e t) := by
  refine loc.bind fun y r r' le h => ?_
  obtain ⟨s, b⟩ := r
  obtain ⟨t, b'⟩ := r'
  obtain ⟨alike, same, root, place⟩ := h
  obtain rfl : b' = b := same
  have iff : i = 0 ↔ b' = 1 := by
    refine ⟨root, fun one => ?_⟩
    by_contra nonzero
    exact (alike.apart b' (place nonzero).1).1 one
  refine .return (alike.put iff ?_ ?_ (sound.mono le) fun zero => (rooted zero).mono le)
  · by_cases zero : i = 0
    · exact .inl (root zero)
    · exact .inr (place zero).1
  · by_cases zero : i = 0
    · have one : b' = 1 := root zero
      exact .inr (one ▸ by decide)
    · exact (place zero).2

/-- A new entry where no block is free. -/
theorem createEntryAt_full (chance : ∀ s t, env.rawEntry s = env.rawEntry t)
    (loc : ∀ i y s t, Alike env y s t → Coupled y (Located env i) (locate i s) (locate i t))
    (h : Alike env x s t) (hx : x.full) :
    Coupled x (fun y r r' => Alike env y r r' ∧ y.full) (createEntryAt env locate i flags s)
      (createEntryAt env locate i flags t) := by
  rw [createEntryAt, createEntryAt, h.search_eq, chance t s]
  cases found : env.findFreeBlock s with
  | error e => exact coupled_error
  | ok b =>
    obtain ⟨regular, -⟩ | ⟨hb, -⟩ := h.found found
    · exact absurd hx regular
    rw [ok_bind, ok_bind, fbbSetBlock_of_plain h.plain, fbbSetBlock_of_plain h.plain', ok_bind,
      ok_bind]
    refine (readEntryAt_coupled (loc _ _ _ _ (h.mark b))).bind fun y r r' le read => ?_
    obtain ⟨s₁, last⟩ := r
    obtain ⟨t₁, last'⟩ := r'
    obtain ⟨alike, same, -, -⟩ := read
    obtain rfl : last' = last := same
    have full := le.2 hx
    refine (writeEntryAt_coupled (loc _ _ _ _ alike) ⟨.inr (le.1 hb), .inl full⟩
      fun _ => ⟨.inr (le.1 hb), .inl full⟩).bind fun z s₂ t₂ le' alike => ?_
    have full := le'.2 full
    refine Coupled.imp (writeEntryAt_coupled (loc _ _ _ _ alike) ⟨.inl rfl, .inl full⟩
      fun _ => ⟨.inl rfl, .inl full⟩) fun w s₃ t₃ le alike => ⟨alike, le.2 full⟩

end Locate

/-- What the walk to an entry leaves, where it is not the main entry. -/
structure Walked (env : Env) (x : Shared) (r r' : Volume × U64) : Prop where
  alike : Alike env x r.1 r'.1
  same : r'.2 = r.2
  mem : r.2 ∈ x.blocks
  live : x.full ∨ r.2 ≠ 0

section Walk

variable {create : U64 → Volume → Except Stop Volume} {last : U64}

theorem Alike.node_eq (h : Alike env x s t) (place : b = 1 ∨ b ∈ x.blocks) :
    t.node b = s.node b := by
  obtain rfl | hb := place
  · rw [Volume.node, Volume.node, if_pos rfl, if_pos rfl, h.main]
  · exact h.same b hb

theorem Alike.entryIn_eq (h : Alike env x s t) (hb : b ∈ x.blocks) :
    s.entryIn b = s.node b ∧ t.entryIn b = s.node b := by
  have one := (h.apart b hb).1
  have same := h.same b hb
  rw [Volume.node, if_neg one] at same
  exact ⟨(if_neg one).symm, same⟩

theorem Alike.node_links (h : Alike env x s t) (place : b = 1 ∨ b ∈ x.blocks) :
    Links x (s.node b) := by
  obtain rfl | hb := place
  · exact h.root.links
  · exact h.links b hb

/-- Where no block is free, the walk stays within the shared blocks, block 0 among them. -/
theorem enumerate_full
    (hcreate : ∀ i y s t, Alike env y s t → y.full →
      Coupled y (fun y r r' => Alike env y r r' ∧ y.full) (create i s) (create i t))
    (h : Alike env x s t) (hx : x.full) (links : Links x e) (hl : last ∈ x.blocks) :
    Coupled x (Walked env) (enumerate create n i s e last) (enumerate create n i t e last) := by
  induction n generalizing i x s t e last with
  | zero => exact .return ⟨h, rfl, hl, .inl hx⟩
  | succ n ih =>
    have follow {y : Shared} {s t : Volume} {e : Entry} (h : Alike env y s t) (hy : y.full)
        (links : Links y e) : Coupled y (Walked env)
          (enumerate create n (i + 1) s (s.entryIn e.nextIndexStart) e.nextIndexStart)
          (enumerate create n (i + 1) t (t.entryIn e.nextIndexStart) e.nextIndexStart) := by
      have mem : e.nextIndexStart ∈ y.blocks := links.elim (fun eq => eq ▸ (h.full hy).2.2) id
      rw [(h.entryIn_eq mem).1, (h.entryIn_eq mem).2]
      exact ih h hy (h.links _ mem) mem
    rw [enumerate, enumerate]
    split_ifs
    · refine (hcreate i x s t h hx).bind fun y s₁ t₁ le made => ?_
      obtain ⟨alike, hy⟩ := made
      have mem := le.1 hl
      dsimp only
      rw [(alike.entryIn_eq mem).1, (alike.entryIn_eq mem).2]
      exact follow alike hy (alike.links _ mem)
    · exact follow h hx links

/-- A new entry at the end of the chain: in a block of its own, or where no block is free. -/
theorem createEntryAt_last (chance : ∀ s t, env.rawEntry s = env.rawEntry t)
    (loc : ∀ i y s t, Alike env y s t → Coupled y (Located env i)
      (getEntryBlockWithin env d i s) (getEntryBlockWithin env d i t))
    (h : Alike env x s t) (regular : ¬x.full) (listed : Listed s (p ++ [z]))
    (listed' : Listed t (p ++ [z])) (hi : i.toNat = p.length + 1) (short : i.toNat + 1 < 2 ^ 64)
    (place : ∀ c ∈ p ++ [z], c = 1 ∨ c ∈ x.blocks) :
    Coupled x (fun y r r' => Alike env y r r' ∧ (y.full ∨ ∃ b, b ∈ y.blocks ∧ b ∉ p ++ [z] ∧
        b ≠ 0 ∧ b ≠ 1 ∧ b ≠ 4 ∧ r = extend env s i z b flags))
      (createEntryAt env (getEntryBlockWithin env d) i flags s)
      (createEntryAt env (getEntryBlockWithin env d) i flags t) := by
  cases found : env.findFreeBlock s with
  | error e =>
    rw [createEntryAt, createEntryAt, h.search_eq, found]
    exact coupled_error
  | ok b =>
    obtain ⟨-, hb, zero, one, four⟩ | ⟨hb, full⟩ := h.found found
    · have absent : b ∉ p ++ [z] := fun mem => (place b mem).elim one hb
      cases d with
      | zero =>
        rw [createEntryAt, createEntryAt, h.search_eq, found, ok_bind, ok_bind,
          fbbSetBlock_of_plain h.plain, fbbSetBlock_of_plain h.plain']
        exact coupled_error
      | succ d =>
        rw [createEntryAt_eq listed hi absent zero found short,
          createEntryAt_eq listed' hi absent zero (h.search_eq.trans found) short]
        exact ⟨x.add b, le_add, h.extend (chance t s) regular listed listed' hi
          (place z (by simp)) absent zero one four, .inr ⟨b, Set.mem_insert b x.blocks, absent,
            zero, one, four, rfl⟩⟩
    · have le : x ≤ ⟨x.blocks, True⟩ := ⟨subset_rfl, fun _ => trivial⟩
      exact ((createEntryAt_full chance loc full trivial).mono le).imp
        fun y r r' _ made => ⟨made.1, .inl made.2⟩

/-- The blocks `p` that a walk has passed on its way to block `c`. -/
structure Passed (x : Shared) (s : Volume) (p : List U64) (c : U64) : Prop where
  path : Path s.next 1 p c
  live : 0 ∉ p ++ [c]
  place : ∀ b ∈ p ++ [c], b = 1 ∨ b ∈ x.blocks
  once : 1 ∉ (p ++ [c]).tail

namespace Passed

variable {c : U64}

omit [SectorAccess] in
theorem mem (h : Passed x s p c) (more : p ≠ []) : c ∈ x.blocks := by
  obtain ⟨a, q, rfl⟩ := List.exists_cons_of_ne_nil more
  exact (h.place c (by simp)).resolve_left fun eq => h.once (by simp [eq])

omit [SectorAccess] in
theorem ne_zero (h : Passed x s p c) : c ≠ 0 := fun eq => h.live (by rw [eq]; simp)

omit [SectorAccess] in
theorem follow (h : Passed x s p c) (eq : s.next c = b) (mem : b ∈ x.blocks) (zero : b ≠ 0)
    (one : b ≠ 1) : Passed x s (p ++ [c]) b where
  path := path_append.mpr ⟨c, h.path, rfl, eq⟩
  live := by
    rw [List.mem_append, List.mem_singleton]
    exact not_or.mpr ⟨h.live, zero.symm⟩
  place a ha := by
    obtain ha | ha := List.mem_append.mp ha
    · exact h.place a ha
    · exact .inr (List.mem_singleton.mp ha ▸ mem)
  once := by
    rw [List.tail_append_of_ne_nil (by simp), List.mem_append, List.mem_singleton]
    exact not_or.mpr ⟨h.once, one.symm⟩

omit [SectorAccess] in
theorem congr (h : Passed x s p c) (le : x ≤ y) (same : ∀ a ∈ p, s'.next a = s.next a) :
    Passed y s' p c where
  path := h.path.congr same
  live := h.live
  place a ha := (h.place a ha).imp_right fun mem => le.1 mem
  once := h.once

omit [SectorAccess] in
theorem listed (h : Passed x s p c) (plain : s.Plain) (cached : s.Cached) (ended : s.next c = 0)
    (apart : ∀ b ∈ x.blocks, b ≠ 4) (short : p.length + 1 < 2 ^ 64) : Listed s (p ++ [c]) where
  plain := plain
  cached := cached
  linked := ⟨path_append.mpr ⟨c, h.path, rfl, ended⟩, h.live⟩
  apart mem := (h.place 4 mem).elim (by decide) fun hb => apart 4 hb rfl
  short := by simpa using short

end Passed

/-- The walk from the main entry to the entry in block `c`, and on from there. -/
theorem enumerate_coupled (chance : ∀ s t, env.rawEntry s = env.rawEntry t)
    (loc : ∀ i y s t, Alike env y s t → Coupled y (Located env i)
      (getEntryBlockWithin env d i s) (getEntryBlockWithin env d i t))
    {c : U64} (h : Alike env x s t) (regular : ¬x.full) (passed : Passed x s p c)
    (hi : i.toNat = p.length + 1) (short : i.toNat + n < 2 ^ 64)
    (hl : last = if p = [] then s.next 1 else c) :
    Coupled x (Walked env)
      (enumerate (fun i => createEntryAt env (getEntryBlockWithin env d) i 0) n i s (s.node c) last)
      (enumerate (fun i => createEntryAt env (getEntryBlockWithin env d) i 0) n i t (s.node c)
        last) := by
  induction n generalizing i x s t p c last with
  | zero =>
    by_cases start : p = []
    · have next := (h.root.live.resolve_left regular).1
      rw [hl, if_pos start]
      exact .return ⟨h, rfl, h.root.links.resolve_left next, .inr next⟩
    · rw [hl, if_neg start]
      exact .return ⟨h, rfl, passed.mem start, .inr passed.ne_zero⟩
  | succ n ih =>
    have next : (i + 1).toNat = (p ++ [c]).length + 1 := by
      rw [BitVec.toNat_add_of_lt (by change i.toNat + 1 < _; omega), hi]
      simp
    have bound : (i + 1).toNat + n < 2 ^ 64 := by
      rw [next]
      simp
      omega
    rw [enumerate, enumerate]
    by_cases ended : (s.node c).nextIndexStart = 0
    · rw [if_pos ended, if_pos ended]
      have start : p ≠ [] := by
        rintro rfl
        have path := passed.path
        rw [path_nil] at path
        exact (h.root.live.resolve_left regular).1 (path ▸ ended)
      rw [if_neg start] at hl
      subst hl
      have mem := passed.mem start
      have listed := passed.listed h.plain h.cached ended (fun b hb => (h.apart b hb).2)
        (by omega)
      have listed' : Listed t (p ++ [last]) := ⟨h.plain', h.cached', listed.linked.congr
        fun b hb => by rw [Volume.next, Volume.next, h.node_eq (passed.place b hb)],
        listed.apart, listed.short⟩
      refine (createEntryAt_last chance loc h regular listed listed' hi (by omega)
        passed.place).bind fun y s₁ t₁ le made => ?_
      obtain ⟨alike, made⟩ := made
      dsimp only
      rw [(alike.entryIn_eq (le.1 mem)).1, (alike.entryIn_eq (le.1 mem)).2]
      by_cases full : y.full
      · have links := alike.links _ (le.1 mem)
        have hb : (s₁.node last).nextIndexStart ∈ y.blocks :=
          links.elim (fun eq => eq ▸ (alike.full full).2.2) id
        rw [(alike.entryIn_eq hb).1, (alike.entryIn_eq hb).2]
        exact enumerate_full (fun i y s t h hy => createEntryAt_full chance loc h hy) alike full
          (alike.links _ hb) hb
      · obtain ⟨b, hb, absent, zero, one, four, rfl⟩ := made.resolve_left full
        have node (a : U64) (ha : a ≠ 4) := node_extend env 0 listed hi absent a ha
        have avoid (a : U64) (ha : a ∈ p ++ [last]) : a ≠ 4 ∧ a ≠ b :=
          ⟨ne_of_mem_of_not_mem ha listed.apart, ne_of_mem_of_not_mem ha absent⟩
        have here := avoid last (by simp)
        have apart : last ∉ p := fun mem =>
          (List.nodup_append.mp listed.nodup).2.2 last mem last (by simp) rfl
        have linked : Volume.next (GemFS.extend env s i last b 0) last = b := by
          rw [Volume.next, node last here.1, if_neg here.2, if_pos rfl]
        have before (a : U64) (ha : a ∈ p) :
            Volume.next (GemFS.extend env s i last b 0) a = s.next a := by
          have other := avoid a (List.mem_append_left _ ha)
          rw [Volume.next, node a other.1, if_neg other.2,
            if_neg (ne_of_mem_of_not_mem ha apart), Volume.next]
        rw [Volume.next] at linked
        rw [linked, (alike.entryIn_eq hb).1, (alike.entryIn_eq hb).2]
        exact ih alike full ((passed.congr le before).follow linked hb zero one) next bound
          (by simp)
    · rw [if_neg ended, if_neg ended]
      have mem : (s.node c).nextIndexStart ∈ x.blocks :=
        (h.node_links (passed.place c (by simp))).resolve_left ended
      rw [(h.entryIn_eq mem).1, (h.entryIn_eq mem).2]
      exact ih h regular (passed.follow rfl mem ended (h.apart _ mem).1) next bound (by simp)

end Walk

/-- The same block is found on both volumes, with the same entries created on the way. -/
theorem getEntryBlockWithin_coupled (chance : ∀ s t, env.rawEntry s = env.rawEntry t)
    (h : Alike env x s t) : Coupled x (Located env i) (getEntryBlockWithin env d i s)
      (getEntryBlockWithin env d i t) := by
  induction d generalizing x s t i with
  | zero => exact coupled_error
  | succ d ih =>
    rw [getEntryBlockWithin, getEntryBlockWithin]
    by_cases zero : i = 0
    · rw [if_pos zero, if_pos zero]
      exact .return ⟨h, rfl, fun _ => rfl, fun nonzero => absurd zero nonzero⟩
    · rw [if_neg zero, if_neg zero, h.main]
      have root : s.main.entry = s.node 1 := rfl
      refine Coupled.imp (?_ : Coupled x (Walked env) _ _) fun y r r' _ walked => ⟨walked.alike, walked.same,
        fun eq => absurd eq zero, fun _ => ⟨walked.mem, walked.live⟩⟩
      have rounds : (1 : U64).toNat + ((i + 1).toNat - 1) < 2 ^ 64 := by
        have := (i + 1).isLt
        change 1 + _ < _
        omega
      rw [root]
      by_cases full : x.full
      · exact enumerate_full (fun i y s t h hy => createEntryAt_full chance
          (fun i y s t h => ih h) h hy) h full h.root.links
          (h.root.links.elim (fun eq => eq ▸ (h.full full).2.2) id)
      · have start : Passed x s [] 1 :=
          ⟨rfl, by decide, fun b hb => .inl (by simpa using hb), by simp⟩
        exact enumerate_coupled chance (fun i y s t h => ih h) h full start rfl rounds rfl

end ChudOS.GemFS
