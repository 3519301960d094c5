import ChudOS.Filesys.Blocks
import ChudOS.Library.LinkedChain
import ChudOS.Library.Outcome

/-!
# The chain of entries

The entries of a volume form a linked list of blocks that starts at the main entry. An index within
the list is looked up without a change; one past its end makes the list longer.

## Main definitions

* `Entries` — the blocks of the entries from an index on.
* `Listed` — the blocks of all entries, on a volume whose cached main entry is the one on the disk.
* `Chain` — such blocks, with the indices in the order of the list.
* `extend` — the volume after one more entry was created.
-/

namespace ChudOS.GemFS

open Volume LinkedChain Outcome

/-- The entries from index `k` on, which start in block `a`, lie in the blocks `l`. -/
structure Entries (s : Volume) (a : U64) (k : Nat) (l : List U64) : Prop where
  linked : Linked s.next 0 a l
  index : (l.map fun b => (s.node b).index.toNat) = List.range' k l.length
  apart : 4 ∉ l

structure Listed (s : Volume) (l : List U64) : Prop where
  plain : s.Plain
  cached : s.Cached
  linked : Linked s.next 0 1 l
  apart : 4 ∉ l
  short : l.length < 2 ^ 64

structure Chain (s : Volume) (l : List U64) : Prop where
  plain : s.Plain
  cached : s.Cached
  entries : Entries s 1 0 l
  short : l.length < 2 ^ 64

variable {env : Env} {s s' : Volume} {a b z i : U64} {k d : Nat} {e : Entry} {flags : U8}
  {l p q r : List U64}

/-! ## Parts of a chain -/

theorem entries_append : Entries s a k (p ++ q) ↔
    ∃ b, Path s.next a p b ∧ 0 ∉ p ∧ (p.map fun b => (s.node b).index.toNat) = List.range' k p.length ∧
      4 ∉ p ∧ Entries s b (k + p.length) q := by
  constructor
  · rintro ⟨linked, index, apart⟩
    obtain ⟨b, path, live, rest⟩ := linked_append.mp linked
    rw [List.map_append, List.length_append, ← List.range'_append_1] at index
    obtain ⟨left, right⟩ := List.append_inj index (by simp)
    simp only [List.mem_append, not_or] at apart
    exact ⟨b, path, live, left, apart.1, rest, right, apart.2⟩
  · rintro ⟨b, path, live, left, apart, rest, right, apart'⟩
    refine ⟨linked_append.mpr ⟨b, path, live, rest⟩, ?_,
      fun mem => (List.mem_append.mp mem).elim apart apart'⟩
    rw [List.map_append, List.length_append, ← List.range'_append_1, left, right]

theorem Entries.congr (h : Entries s a k l) (agree : ∀ b ∈ l, s'.node b = s.node b) :
    Entries s' a k l where
  linked := h.linked.congr fun b hb => by rw [Volume.next, Volume.next, agree b hb]
  index := by
    rw [← h.index]
    exact List.map_congr_left fun b hb => by rw [agree b hb]
  apart := h.apart

theorem entries_cons : Entries s a k (b :: r) ↔
    a = b ∧ b ≠ 0 ∧ b ≠ 4 ∧ (s.node b).index.toNat = k ∧ Entries s (s.next b) (k + 1) r := by
  constructor
  · rintro ⟨linked, index, apart⟩
    obtain ⟨rfl, live, rest⟩ := linked_cons.mp linked
    simp only [List.map_cons, List.length_cons, List.range'_succ, List.cons.injEq] at index
    simp only [List.mem_cons, not_or] at apart
    exact ⟨rfl, live, Ne.symm apart.1, index.1, rest, index.2, apart.2⟩
  · rintro ⟨rfl, live, ne, head, rest, index, apart⟩
    refine ⟨linked_cons.mpr ⟨rfl, live, rest⟩, ?_,
      fun mem => (List.mem_cons.mp mem).elim (Ne.symm ne) apart⟩
    simp [head, index, List.range'_succ]

@[simp] theorem entries_nil : Entries s a k [] ↔ a = 0 :=
  ⟨fun h => linked_nil.mp h.linked, fun h => ⟨linked_nil.mpr h, rfl, by simp⟩⟩

/-- The entries after one of the chain, replaced by others. -/
theorem Entries.splice (h : Entries s a k (p ++ b :: q)) (agree : ∀ c ∈ p, s'.node c = s.node c)
    (index : (s'.node b).index.toNat = k + p.length)
    (tail : Entries s' (s'.next b) (k + p.length + 1) r) : Entries s' a k (p ++ b :: r) := by
  obtain ⟨c, path, live, left, apart, rest⟩ := entries_append.mp h
  obtain ⟨rfl, hc, ne, -⟩ := entries_cons.mp rest
  refine entries_append.mpr ⟨c, path.congr fun x hx => by rw [Volume.next, Volume.next, agree x hx],
    live, ?_, apart, entries_cons.mpr ⟨rfl, hc, ne, index, tail⟩⟩
  rw [← left]
  exact List.map_congr_left fun x hx => by rw [agree x hx]

namespace Listed

theorem nodup (h : Listed s l) : l.Nodup := h.linked.nodup

theorem exists_cons (h : Listed s l) : ∃ r, l = 1 :: r := by
  cases l with
  | nil => exact absurd (linked_nil.mp h.linked) (by decide)
  | cons b r => exact ⟨r, by rw [h.linked.head]⟩

/-- Only the entry with index 0 lies in block 1. -/
theorem root (h : Listed s l) (hi : i.toNat < l.length) : i = 0 ↔ l[i.toNat] = 1 := by
  obtain ⟨r, rfl⟩ := h.exists_cons
  constructor
  · rintro rfl
    rfl
  · intro eq
    have same : (1 :: r)[i.toNat] = (1 :: r)[0] := eq
    exact BitVec.eq_of_toNat_eq (h.nodup.getElem_inj_iff.mp same)

end Listed

namespace Chain

theorem listed (h : Chain s l) : Listed s l :=
  ⟨h.plain, h.cached, h.entries.linked, h.entries.apart, h.short⟩

theorem nodup (h : Chain s l) : l.Nodup := h.listed.nodup

theorem exists_cons (h : Chain s l) : ∃ r, l = 1 :: r := h.listed.exists_cons

theorem index_getElem (h : Chain s l) (hk : k < l.length) : (s.node l[k]).index.toNat = k := by
  have eq := congrArg (fun x : List Nat => x[k]?) h.entries.index
  simpa [hk] using eq

theorem root (h : Chain s l) (hi : i.toNat < l.length) : i = 0 ↔ l[i.toNat] = 1 := h.listed.root hi

/-- An entry is replaced by one with the same index, and what follows it by what the new one links
to. -/
theorem splice (h : Chain s (p ++ b :: q)) (root : i = 0 ↔ b = 1) (index : e.index.toNat = p.length)
    (tail : Entries s e.nextIndexStart (p.length + 1) r) (apart : b ∉ r)
    (short : p.length + 1 + r.length < 2 ^ 64) : Chain (putEntry env s i b e) (p ++ b :: r) := by
  have node (c : U64) : (putEntry env s i b e).node c = if c = b then e else s.node c :=
    node_putEntry env e h.plain root c
  have nodup := h.nodup
  rw [List.nodup_middle] at nodup
  have absent : b ∉ p ++ q := (List.nodup_cons.mp nodup).1
  refine ⟨plain_putEntry.mpr h.plain, cached_putEntry h.plain root h.cached, ?_, by simp; omega⟩
  refine h.entries.splice (fun x hx => ?_) ?_ ?_
  · rw [node, if_neg (ne_of_mem_of_not_mem (List.mem_append_left q hx) absent)]
  · rw [node, if_pos rfl, index, Nat.zero_add]
  · rw [Volume.next, node, if_pos rfl, Nat.zero_add]
    exact tail.congr fun x hx => by rw [node, if_neg (ne_of_mem_of_not_mem hx apart)]

end Chain

/-! ## The end of a chain -/

section End

variable (h : Listed s (p ++ [z])) (hi : i.toNat = p.length + 1) (hb : b ∉ p ++ [z])
include hi

theorem pred_toNat : (i - 1).toNat = p.length := by
  rw [BitVec.toNat_sub_of_le (by rw [BitVec.le_def, hi]; exact Nat.le_add_left 1 _), hi]
  rfl

theorem pred_lt : (i - 1).toNat < (p ++ [z]).length := by
  rw [pred_toNat hi]
  simp

theorem getElem_pred (lt : (i - 1).toNat < (p ++ [z]).length) : (p ++ [z])[(i - 1).toNat] = z := by
  rw [List.getElem_append_right (Nat.le_of_eq (pred_toNat hi).symm)]
  simp

include h

theorem root_pred : i - 1 = 0 ↔ z = 1 := by
  have := h.root (pred_lt hi)
  rwa [getElem_pred hi] at this

include hb

theorem root_new : i = 0 ↔ b = 1 := by
  obtain ⟨r, eq⟩ := h.exists_cons
  have other : b ≠ 1 := fun one => hb (by rw [eq, one]; simp)
  refine ⟨fun zero => ?_, fun one => absurd one other⟩
  rw [zero] at hi
  simp at hi

end End

/-! ## Looking an entry up -/

/-- A walk along linked blocks creates nothing. -/
theorem enumerate_walk {create : U64 → Volume → Except Stop Volume} {last : U64}
    (path : Path s.next a p b) (live : 0 ∉ p ++ [b]) (once : 1 ∉ (p ++ [b]).tail) :
    enumerate create p.length i s (s.node a) last = .ok (s, if p = [] then last else b) := by
  induction p generalizing a i last with
  | nil => rfl
  | cons x p ih =>
    obtain ⟨rfl, path⟩ := path
    simp only [List.cons_append, List.mem_cons, not_or, List.tail_cons] at live once
    have mem : s.next a ∈ p ++ [b] := by
      cases p with
      | nil => simpa using path
      | cons y p => simp [path.1]
    have nonzero : s.next a ≠ 0 := fun zero => live.2 (zero ▸ mem)
    have other : s.entryIn (s.next a) = s.node (s.next a) :=
      (if_neg (ne_of_mem_of_not_mem mem once)).symm
    have rest := @ih _ (i + 1) (s.next a) path live.2 fun h => once (List.mem_of_mem_tail h)
    rw [List.length_cons, enumerate, ← Volume.next, if_neg nonzero, other, rest]
    cases p with
    | nil => simp only [path_nil] at path; simp [← path, Volume.next]
    | cons y p => simp

variable [SectorAccess]

theorem getEntryBlockWithin_path (path : Path s.next 1 p b) (live : 0 ∉ p ++ [b])
    (nodup : (p ++ [b]).Nodup) (hp : i.toNat = p.length) (short : p.length + 1 < 2 ^ 64) :
    getEntryBlockWithin env (d + 1) i s = .ok (s, b) := by
  cases p with
  | nil =>
    obtain rfl : i = 0 := BitVec.eq_of_toNat_eq hp
    rw [getEntryBlockWithin, if_pos rfl, path_nil.mp path]
  | cons x p =>
    obtain ⟨rfl, path'⟩ := path
    have nonzero : i ≠ 0 := by
      rintro rfl
      simp at hp
    have rounds : (i + 1).toNat - 1 = (1 :: p).length := by
      rw [BitVec.toNat_add_of_lt (by simpa [hp] using short), hp]
      rfl
    have start : s.main.entry = s.node 1 := rfl
    rw [getEntryBlockWithin, if_neg nonzero, rounds, start,
      enumerate_walk (path_cons.mpr ⟨rfl, path'⟩) live (List.nodup_cons.mp nodup).1]
    rfl

namespace Listed

variable (env d) in
theorem locate (h : Listed s l) (hi : i.toNat < l.length) :
    getEntryBlockWithin env (d + 1) i s = .ok (s, l[i.toNat]) := by
  have split : l.take i.toNat ++ l[i.toNat] :: l.drop (i.toNat + 1) = l := by simp
  have linked := h.linked
  rw [← split] at linked
  obtain ⟨b, path, -, rest⟩ := linked_append.mp linked
  obtain rfl := rest.head
  have sub : (l.take i.toNat ++ [l[i.toNat]]).Sublist l := by
    rw [List.take_append_getElem]
    exact List.take_sublist _ _
  exact getEntryBlockWithin_path path (fun mem => h.linked.2 (sub.subset mem))
    (h.nodup.sublist sub) (by simp; omega) (by have := h.short; simp; omega)

variable (env d i) in
theorem read (h : Listed s l) (hi : i.toNat < l.length) :
    readEntryAt (getEntryBlockWithin env (d + 1)) i s = .ok (s, s.node l[i.toNat]) := by
  rw [readEntryAt, h.locate _ _ hi, ok_bind]
  by_cases zero : i = 0
  · simp only [if_pos zero, readMainEntry_of_cached h.cached, (h.root hi).mp zero]
    rfl
  · have other : l[i.toNat] ≠ 1 := fun one => zero ((h.root hi).mpr one)
    simp only [if_neg zero, node, if_neg other]
    rfl

variable (env d i e) in
theorem write (h : Listed s l) (hi : i.toNat < l.length) :
    writeEntryAt env (getEntryBlockWithin env (d + 1)) i e s =
      .ok (putEntry env s i l[i.toNat] e) := by
  rw [writeEntryAt, h.locate _ _ hi, ok_bind]
  rfl

theorem mark (h : Listed s l) (b : U64) : Listed (s.mark b) l where
  plain := plain_mark.mpr h.plain
  cached := cached_mark h.plain h.cached
  linked := h.linked.congr fun c hc => by
    rw [Volume.next, Volume.next, node_mark h.plain (ne_of_mem_of_not_mem hc h.apart)]
  apart := h.apart
  short := h.short

end Listed

namespace Chain

variable (env d) in
theorem locate (h : Chain s l) (hi : i.toNat < l.length) :
    getEntryBlockWithin env (d + 1) i s = .ok (s, l[i.toNat]) := h.listed.locate env d hi

variable (env d i) in
theorem read (h : Chain s l) (hi : i.toNat < l.length) :
    readEntryAt (getEntryBlockWithin env (d + 1)) i s = .ok (s, s.node l[i.toNat]) :=
  h.listed.read env i d hi

variable (env d i e) in
theorem write (h : Chain s l) (hi : i.toNat < l.length) :
    writeEntryAt env (getEntryBlockWithin env (d + 1)) i e s =
      .ok (putEntry env s i l[i.toNat] e) := h.listed.write env i d e hi

theorem mark (h : Chain s l) (b : U64) : Chain (s.mark b) l where
  plain := plain_mark.mpr h.plain
  cached := cached_mark h.plain h.cached
  entries := h.entries.congr fun _ hc =>
    node_mark h.plain (ne_of_mem_of_not_mem hc h.entries.apart)
  short := h.short

end Chain

/-! ## Creating an entry -/

/-- The volume after the entry `i` was created in block `b`, linked from the one in block `z`. -/
def extend (env : Env) (s : Volume) (i z b : U64) (flags : U8) : Volume :=
  let t := putEntry env (s.mark b) (i - 1) z { (s.mark b).node z with nextIndexStart := b }
  putEntry env t i b { env.rawEntry s with index := i, flags, nextIndexStart := 0 }

section Extend

variable (h : Listed s (p ++ [z])) (hi : i.toNat = p.length + 1) (hb : b ∉ p ++ [z])
include h hi hb

variable (env flags) in
theorem node_extend (c : U64) (hc : c ≠ 4) : (extend env s i z b flags).node c =
    if c = b then { env.rawEntry s with index := i, flags, nextIndexStart := 0 }
    else if c = z then { s.node z with nextIndexStart := b } else s.node c := by
  have plain := (h.mark b).plain
  have root := root_pred h hi
  have hz : z ≠ 4 := ne_of_mem_of_not_mem (by simp) h.apart
  rw [extend, node_putEntry _ _ (plain_putEntry.mpr plain) (root_new h hi hb),
    node_putEntry _ _ plain root, node_mark h.plain hc, node_mark h.plain hz]

theorem fbbGetBlock_extend (apart : b ≠ 4) (c : U64) :
    fbbGetBlock (extend env s i z b flags) c =
      (fbbGetBlock s c || (c == b && decide (b.toNat < capacity))) := by
  have plain := (h.mark b).plain
  have hz : z ≠ 4 := ne_of_mem_of_not_mem (by simp) h.apart
  rw [extend, fbbGetBlock_putEntry (plain_putEntry.mpr plain) (root_new h hi hb) apart,
    fbbGetBlock_putEntry plain (root_pred h hi) hz, fbbGetBlock_mark h.plain]

theorem createEntryAt_eq (nonzero : b ≠ 0) (found : env.findFreeBlock s = .ok b)
    (short : i.toNat + 1 < 2 ^ 64) :
    createEntryAt env (getEntryBlockWithin env (d + 1)) i flags s =
      .ok (extend env s i z b flags) := by
  have hm := h.mark b
  have lt := @pred_lt z i p hi
  rw [createEntryAt, found, ok_bind, fbbSetBlock_of_plain h.plain, ok_bind, hm.read _ _ _ lt, ok_bind]
  dsimp only
  rw [hm.write _ _ _ _ lt, ok_bind, getElem_pred hi lt]
  -- the new block is linked, so it is found although its entry is not written yet
  have old := hm.linked
  have absent : z ∉ p := by
    have := h.nodup
    rw [List.nodup_append] at this
    exact fun mem => this.2.2 z mem z (by simp) rfl
  obtain ⟨c, path, -, last⟩ := linked_append.mp old
  rw [last.head] at path
  have node (c : U64) := node_putEntry env { (s.mark b).node z with nextIndexStart := b } hm.plain
    (root_pred h hi) c
  have path' : Path (Volume.next (putEntry env (s.mark b) (i - 1) z
      { (s.mark b).node z with nextIndexStart := b })) 1 (p ++ [z]) b := by
    refine path_append.mpr ⟨z, path.congr fun x hx => ?_, rfl, ?_⟩
    · rw [Volume.next, Volume.next, node, if_neg (ne_of_mem_of_not_mem hx absent)]
    · rw [path_nil, Volume.next, node, if_pos rfl]
  rw [writeEntryAt, getEntryBlockWithin_path path' ?_ ?_ (by simpa using hi)
    (by simpa [hi] using short), ok_bind]
  · rfl
  · exact fun mem => (List.mem_append.mp mem).elim old.2 fun eq =>
      nonzero (List.mem_singleton.mp eq).symm
  · exact List.nodup_append.mpr ⟨h.nodup, by simp, fun x hx y hy => by
      rw [List.mem_singleton.mp hy]
      exact ne_of_mem_of_not_mem hx hb⟩

end Extend

theorem Chain.extend (h : Chain s (p ++ [z])) (hi : i.toNat = p.length + 1) (hb : b ∉ p ++ [z])
    (nonzero : b ≠ 0) (apart : b ≠ 4) (short : i.toNat + 1 < 2 ^ 64) :
    Chain (extend env s i z b flags) (p ++ [z, b]) := by
  have hm := h.mark b
  have node (c : U64) (hc : c ≠ 4) := node_extend env flags h.listed hi hb c hc
  have avoid (c : U64) (hc : c ∈ p ++ [z]) : c ≠ 4 ∧ c ≠ b :=
    ⟨ne_of_mem_of_not_mem hc h.entries.apart, ne_of_mem_of_not_mem hc hb⟩
  have hz := avoid z (by simp)
  have absent : z ∉ p := by
    have := h.nodup
    rw [List.nodup_append] at this
    exact fun mem => this.2.2 z mem z (by simp) rfl
  refine ⟨plain_putEntry.mpr (plain_putEntry.mpr hm.plain), ?_, ?_, by simp; omega⟩
  · exact cached_putEntry (plain_putEntry.mpr hm.plain) (root_new h.listed hi hb)
      (cached_putEntry hm.plain (root_pred h.listed hi) hm.cached)
  · refine h.entries.splice (fun c hc => ?_) ?_ ?_
    · have := avoid c (List.mem_append_left _ hc)
      rw [node c this.1, if_neg this.2, if_neg (ne_of_mem_of_not_mem hc absent)]
    · rw [node z hz.1, if_neg hz.2, if_pos rfl]
      have lt : p.length < (p ++ [z]).length := by simp
      simpa using h.index_getElem lt
    · rw [Volume.next, node z hz.1, if_neg hz.2, if_pos rfl]
      refine entries_cons.mpr ⟨rfl, nonzero, apart, ?_, ?_⟩
      · rw [node b apart, if_pos rfl, hi, Nat.zero_add]
      · rw [Volume.next, node b apart, if_pos rfl]
        exact entries_nil.mpr rfl

end ChudOS.GemFS
