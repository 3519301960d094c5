import ChudOS.Filesys.AlikeCalls
import ChudOS.Filesys.Format

/-!
# Formatting and the data before it

The formatter writes zeros to block 2, but the bitmap is in block 4, and while it makes the first
entry it reads block 0, which it never writes. So it forgets what was on the partition only where
these two blocks held nothing that counts.

## Main definitions

* `Unused` — no block and no entry is in use because of what was on the partition.
* `Forgets` — two contents of a partition are the same after they are formatted, for every later
  call too.
* `Clean` — the contents that the formatter forgets.
-/

namespace ChudOS.GemFS

open Volume LinkedChain Outcome Coupling

variable [SectorAccess]

/-- The reserved blocks marked by the formatter. -/
def reserve (s : Volume) : Except Stop Volume :=
  (List.range 6).foldlM (fun s i => fbbSetBlock s (BitVec.ofNat 64 i)) (writeHeader s)

/-- When the first directory is made, the marked blocks are the reserved ones, and the first entry
after the main entry is free. -/
def Unused (env : Env) (s : Volume) : Prop :=
  ∃ s₀ s₁, reserve s = .ok s₀ ∧ s₀.Filled 6 ∧ findFreeEntry env s₀ = .ok (s₁, 1)

/-- The entries in the boot blocks are the same, and link to none. -/
def SameBoot (s t : Volume) : Prop :=
  (writeHeader t).entryIn 0 = (writeHeader s).entryIn 0 ∧
    ((writeHeader s).entryIn 0).nextIndexStart = 0 ∧ 6 ≤ s.sectorCount.toNat

/-- The calls find a free block whenever they take one. Where one does not, the boot blocks have to
be the same. -/
def Served (env : Env) (s t : Volume) (formatted : Volume) (calls : List Call) : Prop :=
  runCalls env.strict calls formatted ≠ .error .noBlock ∨ SameBoot s t

/-- The same bitmap, and the same entries in the same blocks. -/
structure SameFiles (s t : Volume) : Prop where
  bitmap : ∀ b, fbbGetBlock t b = fbbGetBlock s b
  main : t.main = s.main
  entries : ∃ l, Chain s l ∧ Chain t l ∧ ∀ b ∈ l, t.node b = s.node b

structure Forgets (env : Env) (bootMsg : Nat → U8) (s t : Volume) : Prop where
  unused : Unused env s
  unused' : Unused env t
  same : ∃ s' t', formatPartition env bootMsg s = .ok s' ∧ formatPartition env bootMsg t = .ok t' ∧
    SameFiles s' t' ∧ ∀ calls, Served env s t s' calls →
      (runCalls env calls t').map Prod.snd = (runCalls env calls s').map Prod.snd

/-- No bit past the reserved blocks is set in block 4, and the entry that the link in block 0 leads
to is not in use. Block 6 gets the first entry. -/
structure Clean (s : Volume) : Prop where
  bitmap : ∀ b : U64, 6 ≤ b.toNat → b.toNat < capacity → fbbGetBlock (writeHeader s) b = false
  boot : ((writeHeader s).entryIn 0).nextIndexStart = 6 ∨
    ((writeHeader s).entryIn ((writeHeader s).entryIn 0).nextIndexStart).inUse = false

variable {env : Env} {x y : Shared} {s s₀ t t₀ : Volume} {b i f : U64} {n u : Nat} {e : Entry}
  {l : List U64} {B : Set U64}

/-! ## Alike from what is known of each -/

/-- The blocks of a chain after the main entry's, and others. -/
def sharedBlocks (l : List U64) (B : Set U64) : Shared := ⟨{b | b ∈ l ∧ b ≠ 1} ∪ B, False⟩

theorem Directory.alike (strict : env.findFreeBlock = findBlock) (h : Directory s l n u)
    (h' : Directory t l n u) (long : 1 < l.length) (main : t.main = s.main)
    (lba : t.lbaStart = s.lbaStart) (count : t.sectorCount = s.sectorCount)
    (same : ∀ b ∈ l, t.node b = s.node b)
    (hB : ∀ b ∈ B, b = 0 ∧ t.node b = s.node b ∧ s.next b = 0)
    (geometry : 0 ∈ B → 6 ≤ s.sectorCount.toNat) :
    Alike env (sharedBlocks l B) s t := by
  obtain ⟨r, rfl⟩ := h.exists_cons
  have linked := h.entries.linked
  have marks := fbbGetBlock_of_filled h.plain h.filled
  have reserved := h.reserved
  have le := h.le
  -- a block of the chain links to a later one, or to none
  have links (b : U64) (hb : b ∈ 1 :: r) : Links (sharedBlocks (1 :: r) B) (s.node b) := by
    obtain ⟨k, hk, rfl⟩ := List.mem_iff_getElem.mp hb
    by_cases last : k + 1 < (1 :: r).length
    · have next : (s.node (1 :: r)[k]).nextIndexStart = (1 :: r)[k + 1] := linked.next_getElem last
      rw [Links, next]
      exact .inr (.inl ⟨List.getElem_mem _, h.getElem_ne_one last (Nat.succ_pos k)⟩)
    · have split : (1 :: r).take k ++ [(1 :: r)[k]] = 1 :: r := by
        rw [List.take_append_getElem, List.take_of_length_le (by omega)]
      exact .inl (Linked.next_last (split.symm ▸ linked))
  refine ⟨h.plain, main, lba, count, h.cached, h'.cached, fun b => ?_, fun b hb => ?_,
    fun b hb => ?_, fun b hb low => ?_, fun b low => ?_, ⟨links 1 (by simp), .inr ⟨?_, ?_⟩⟩,
    fun b hb => ?_, fun b hb nonzero => ⟨?_, .inr fun zero => ?_⟩, fun mem => .inr ?_, False.elim,
    fun mem => geometry (mem.resolve_left fun mem => linked.ne_null mem.1 rfl), .inl strict⟩
  · rw [fbbGetBlock_of_filled h'.plain h'.filled, marks]
  · exact hb.elim (fun mem => same b mem.1) fun mem => (hB b mem).2.1
  · obtain mem | mem := hb
    · exact ⟨mem.2, ne_of_mem_of_not_mem mem.1 h.entries.apart⟩
    · rw [(hB b mem).1]
      decide
  · rw [marks]
    obtain mem | mem := hb
    · simp [low, h.placed b mem.1]
    · rw [(hB b mem).1]
      simp
      omega
  · rw [marks]
    simp
    omega
  · have next : (s.node 1).nextIndexStart = (1 :: r)[1] := linked.next_getElem (k := 0) long
    rw [next]
    exact linked.ne_null (List.getElem_mem _)
  · exact h.inUse 0 (by simp)
  · obtain mem | mem := hb
    · exact links b mem.1
    · exact .inl (hB b mem).2.2
  · obtain mem | mem := hb
    · exact links b mem.1
    · exact absurd (hB b mem).1 nonzero
  · -- only the main entry has index 0
    obtain mem | mem := hb
    · obtain ⟨k, hk, rfl, index⟩ := h.exists_index mem.1
      rw [zero] at index
      obtain rfl : k = 0 := index.symm
      exact absurd rfl mem.2
    · exact absurd (hB b mem).1 nonzero
  · exact mem.elim (fun mem => absurd rfl (linked.ne_null mem.1)) fun mem => (hB 0 mem).2.2

/-- A walk from the main entry stays within the shared blocks. -/
theorem Alike.mem_of_linked (h : Alike env x s t) (linked : Linked s.next 0 1 l) {k : Nat}
    (hk : k < l.length) : l[k] = 1 ∨ l[k] ∈ x.blocks := by
  induction k with
  | zero =>
    obtain ⟨a, r, rfl⟩ := List.exists_cons_of_length_pos hk
    exact .inl linked.head.symm
  | succ k ih =>
    have next : (s.node l[k]).nextIndexStart = l[k + 1] := linked.next_getElem hk
    have links := h.node_links (ih (by omega))
    rw [Links, next] at links
    exact .inr (links.resolve_left (linked.ne_null (List.getElem_mem _)))

theorem Alike.chain_eq (h : Alike env x s t) (hs : Chain s l) :
    (∀ b ∈ l, t.node b = s.node b) ∧ Linked t.next 0 1 l := by
  have same (b : U64) (hb : b ∈ l) : t.node b = s.node b := by
    obtain ⟨k, hk, rfl⟩ := List.mem_iff_getElem.mp hb
    exact h.node_eq (h.mem_of_linked hs.entries.linked hk)
  exact ⟨same, hs.entries.linked.congr fun b hb => by rw [Volume.next, Volume.next, same b hb]⟩

/-! ## The two runs of the formatter -/

section Runs

variable (strict : env.findFreeBlock = findBlock) (chance : ∀ s t, env.rawEntry s = env.rawEntry t)
include strict chance

theorem started_alike (fuel : 2 ≤ env.fuel) (h : Started env s) (h' : Started env t)
    (lba : t.lbaStart = s.lbaStart) (count : t.sectorCount = s.sectorCount)
    (hB : ∀ b ∈ B, b = 0 ∧ t.entryIn 0 = s.entryIn 0 ∧ (s.entryIn 0).nextIndexStart = 0)
    (geometry : 0 ∈ B → 6 ≤ s.sectorCount.toNat) :
    Alike env (sharedBlocks [1, 6] B) (extend env s 1 1 6 0) (extend env t 1 1 6 0) := by
  have listed : Listed s ([] ++ [1]) := h.listed
  have listed' : Listed t ([] ++ [1]) := h'.listed
  have hb : (6 : U64) ∉ ([] : List U64) ++ [1] := by decide
  have main {v : Volume} (hv : Started env v) : (extend env v 1 1 6 0).main =
      { formattedMain with entry := { formattedMain.entry with nextIndexStart := 6 } } := by
    have first : (v.mark 6).node 1 = formattedMain.entry := by
      rw [node_mark hv.plain (by decide), node, if_pos rfl, hv.root]
    rw [extend, main_putEntry, if_neg (by decide), main_putEntry, if_pos (by decide), main_mark,
      hv.root, first]
  have boot (v : Volume) (hv : Started env v) :
      (extend env v 1 1 6 0).node 0 = v.entryIn 0 := by
    rw [node, if_neg (by decide), entryIn_extend_first hv.plain]
  obtain ⟨-, -, dir, -, lbaStart, -⟩ := first_entry strict fuel h
  obtain ⟨-, -, dir', -, lbaStart', -⟩ := first_entry strict fuel h'
  refine Directory.alike strict dir dir' (by decide) (by rw [main h, main h'])
    (by rw [lbaStart, lbaStart', lba]) (by simp [extend, count]) (fun b hb' => ?_) (fun b hb => ?_)
    (by simpa [extend] using geometry)
  · obtain rfl | hb' := List.mem_cons.mp hb'
    · rw [node, node, if_pos rfl, if_pos rfl, main h, main h']
    · obtain rfl := List.mem_singleton.mp hb'
      rw [node_extend env 0 listed rfl hb 6 (by decide),
        node_extend env 0 listed' rfl hb 6 (by decide), if_pos rfl, if_pos rfl, chance t s]
  · obtain ⟨rfl, same, ends⟩ := hB b hb
    rw [Volume.next, boot s h, boot t h']
    exact ⟨rfl, same, ends⟩

variable (bound : env.fuel + 1 < 2 ^ 64)
include bound

theorem formatEntries_coupled (fuel : 2 ≤ env.fuel) (h : Started env s₀) (h' : Started env t₀)
    (eq : reserve s = .ok s₀) (eq' : reserve t = .ok t₀) (lba : t₀.lbaStart = s₀.lbaStart)
    (count : t₀.sectorCount = s₀.sectorCount)
    (hB : ∀ b ∈ B, b = 0 ∧ t₀.entryIn 0 = s₀.entryIn 0 ∧ (s₀.entryIn 0).nextIndexStart = 0)
    (geometry : 0 ∈ B → 6 ≤ s₀.sectorCount.toNat) :
    Coupled (sharedBlocks [1, 6] B) (Returned env) (formatEntries env s) (formatEntries env t) := by
  -- the first search has made the first entry, and finds it again
  have first {v : Volume} (hv : Started env v) (args : CreateArgs) :
      mkdir env args v = mkdir env args (extend env v 1 1 6 0) := by
    obtain ⟨found, again, -⟩ := first_entry strict fuel hv
    rw [mkdir, mkdir, found, again]
  have start := started_alike strict chance fuel h h' lba count hB geometry
  rw [reserve] at eq eq'
  rw [formatEntries, formatEntries, eq, eq', ok_bind, ok_bind, first h, first h']
  have dir {α : Type} {x : Shared} {s t : Volume} (h : Alike env x s t) (args : CreateArgs)
      {rel : Shared → α → α → Prop} {next : Volume × U64 → Except Stop α}
      (later : ∀ y s t f, Alike env y s t → Coupled y rel (next (s, f)) (next (t, f))) :
      Coupled x rel (mkdir env args s >>= next) (mkdir env args t >>= next) :=
    (mkdir_coupled chance bound h).bind fun y r r' _ made => by
      obtain ⟨t, f⟩ := r'
      obtain ⟨alike, same⟩ := made
      obtain rfl : f = r.2 := same
      exact later y r.1 t r.2 alike
  refine dir start _ fun x s t _ h => dir h _ fun x s t _ h => dir h _ fun x s t _ h =>
    dir h _ fun x s t etc h => dir h _ fun x s t bin h => ?_
  refine (createProgram_coupled chance bound h 1500).bind fun x s t _ h => ?_
  refine (createProgram_coupled chance bound h 1600).bind fun x s t _ h => ?_
  refine (createProgram_coupled chance bound h 1800).bind fun x s t _ h => ?_
  exact (createFile_coupled chance bound h 1).imp fun _ _ _ _ made => made.1

end Runs

/-! ## The boot message -/

theorem Alike.putSectors (h : Alike env x s t) (buffer : Nat → U8) (count : U16)
    (clear : ∀ c : U64, (c - b).toNat < sectorsMoved count → c ∉ x.blocks ∧ c ≠ 1 ∧ c ≠ 4) :
    Alike env x (putSectors s (blockToLBA s b) buffer count)
      (putSectors t (blockToLBA t b) buffer count) := by
  have block {v : Volume} (hv : v.Plain) (c : U64) (hc : c ∈ x.blocks ∨ c = 1 ∨ c = 4) :
      (GemFS.putSectors v (blockToLBA v b) buffer count).block c = v.block c := by
    rw [block_putSectors hv, if_neg fun inside => ?_]
    obtain ⟨outside, one, four⟩ := clear c inside
    exact hc.elim outside fun hc => hc.elim one four
  have node {v : Volume} (hv : v.Plain) (c : U64) (hc : c ∈ x.blocks ∨ c = 1) :
      (GemFS.putSectors v (blockToLBA v b) buffer count).node c = v.node c := by
    rw [Volume.node, Volume.node, entryIn, entryIn, block hv c (hc.imp_right .inl)]
    rfl
  have bits {v : Volume} (hv : v.Plain) (c : U64) :
      fbbGetBlock (GemFS.putSectors v (blockToLBA v b) buffer count) c = fbbGetBlock v c := by
    have plain : (GemFS.putSectors v (blockToLBA v b) buffer count).Plain := hv
    rw [fbbGetBlock_of_plain plain, fbbGetBlock_of_plain hv, block hv 4 (.inr (.inr rfl))]
  have cached {v : Volume} (hv : v.Plain) (hc : v.Cached) :
      (GemFS.putSectors v (blockToLBA v b) buffer count).Cached := by
    rw [Cached, block hv 1 (.inr (.inl rfl))]
    exact hc
  refine ⟨h.plain, h.main, h.lbaStart, h.sectorCount, cached h.plain h.cached,
    cached h.plain' h.cached', fun c => ?_, fun c hc => ?_, h.apart, fun c hc low => ?_,
    fun c low => ?_, ?_, fun c hc => ?_, fun c hc nonzero => ?_, fun hc => ?_, fun full => ?_,
    h.geometry, h.search⟩
  · rw [bits h.plain', bits h.plain, h.marks]
  · rw [node h.plain' c (.inl hc), node h.plain c (.inl hc), h.same c hc]
  · rw [bits h.plain, h.marked c hc low]
  · rw [bits h.plain, h.reserved c low]
  · rw [node h.plain 1 (.inr rfl)]
    exact h.root
  · rw [node h.plain c (.inl hc)]
    exact h.links c hc
  · rw [node h.plain c (.inl hc)]
    exact h.live c hc nonzero
  · rw [Volume.next, node h.plain 0 (.inl hc)]
    exact h.boot hc
  · obtain ⟨all, last⟩ := h.full full
    exact ⟨fun c low => by rw [bits h.plain, all c low], last⟩

theorem writeFile_coupled (chance : ∀ s t, env.rawEntry s = env.rawEntry t) (buffer : Nat → U8)
    (h : Alike env x s t) (read : readEntry env i s = .ok (s, e))
    (read' : readEntry env i t = .ok (t, e)) (sound : Sound x e) (rooted : i = 0 → Rooted x e)
    (clear : ∀ c : U64, (c - e.start).toNat < sectorsMoved ((e.size * blockSize s).setWidth 16) →
      c ∉ x.blocks ∧ c ≠ 1 ∧ c ≠ 4) :
    Coupled x (Alike env) (writeFile env buffer i s) (writeFile env buffer i t) := by
  have size : blockSize t = blockSize s := by rw [blockSize, blockSize, h.main]
  rw [writeFile, writeFile, read, read', ok_bind, ok_bind]
  dsimp only
  rw [size]
  split_ifs
  · exact .return h
  · exact writeEntry_coupled chance (h.putSectors buffer _ clear) sound rooted

section Formatted

variable (strict : env.findFreeBlock = findBlock) (chance : ∀ s t, env.rawEntry s = env.rawEntry t)
  (bound : env.fuel + 1 < 2 ^ 64) (fuel : 514 ≤ env.fuel)
include strict chance bound fuel

theorem formatPartition_alike (bootMsg : Nat → U8) (h : Started env s₀) (h' : Started env t₀)
    (eq : reserve s = .ok s₀) (eq' : reserve t = .ok t₀) (lba : t₀.lbaStart = s₀.lbaStart)
    (count : t₀.sectorCount = s₀.sectorCount)
    (hB : ∀ b ∈ B, b = 0 ∧ t₀.entryIn 0 = s₀.entryIn 0 ∧ (s₀.entryIn 0).nextIndexStart = 0)
    (geometry : 0 ∈ B → 6 ≤ s₀.sectorCount.toNat) :
    ∃ s' t' y l, formatPartition env bootMsg s = .ok s' ∧ formatPartition env bootMsg t = .ok t' ∧
      Alike env y s' t' ∧ B ⊆ y.blocks ∧ Chain s' l ∧ Chain t' l := by
  obtain ⟨u, l, made, stage, file, outside⟩ := formatEntries_started strict fuel h eq
  obtain ⟨u', l', made', stage', file', outside'⟩ := formatEntries_started strict fuel h' eq'
  have coupled := formatEntries_coupled strict chance bound (by omega) h h' eq eq' lba count hB
    geometry
  obtain ⟨x, r, le, result, alike, same⟩ := coupled.exists_ok made
  obtain rfl : (u', 9) = r := Except.ok.inj (made'.symm.trans result)
  -- the entries are in the same blocks
  obtain ⟨nodes, linked⟩ := alike.chain_eq stage.toChain
  obtain rfl : l = l' := linked.unique stage'.entries.linked
  have length := stage.length
  have regular : ¬x.full := fun full => by
    have low : (100 : U64).toNat < capacity := le_capacity_of_le (by decide)
    have marked := (alike.full full).1 100 low
    rw [stage.filled 100 low] at marked
    exact absurd marked (by decide)
  have boot (b : U64) (hb : b ∈ B) : b = 0 ∧ u'.node b = u.node b ∧ u.next b = 0 := by
    obtain rfl := (hB b hb).1
    have mem : 0 ∈ x.blocks := le.1 (.inr hb)
    exact ⟨rfl, alike.same 0 mem, (alike.boot mem).resolve_left regular⟩
  have shared := Directory.alike strict stage.toDirectory stage'.toDirectory (by omega) alike.main
    alike.lbaStart alike.sectorCount nodes boot fun mem => alike.geometry (le.1 (.inr mem))
  have hk : 9 < l.length := by omega
  have entry : (u.node l[9]).unlinked =
      newFile ⟨cString "boot_msg.txt", 13, 0b00001111, 4⟩ 9 49 1 := by rw [← rows_eq hk, file]
  have start : (u.node l[9]).start = 49 := congrArg Entry.start entry
  have size : (u.node l[9]).size = 1 := congrArg Entry.size entry
  have one : l[9] ≠ 1 := stage.getElem_ne_one hk (by decide)
  have sound : Sound (sharedBlocks l B) (u.node l[9]) :=
    shared.sound (.inl ⟨List.getElem_mem hk, one⟩) (.inr (stage.entries.linked.ne_null
      (List.getElem_mem hk)))
  have apart (c : U64) (inside : (c - 49).toNat < 1) : c = 49 := by
    have zero : c - 49 = 0 := BitVec.eq_of_toNat_eq (Nat.lt_one_iff.mp inside)
    grind
  have read' : readEntry env 9 u' = .ok (u', u.node l[9]) := by
    rw [← nodes _ (List.getElem_mem hk)]
    exact stage'.readEntry_eq (k := 9) (by omega) hk
  have written := writeFile_coupled chance bootMsg shared
    (stage.readEntry_eq (k := 9) (by omega) hk) read' sound nofun fun c inside => by
      rw [start, size, blockSize_of_plain stage.plain] at inside
      obtain rfl := apart c (sectorsMoved_one ▸ inside)
      refine ⟨fun mem => ?_, by decide, by decide⟩
      exact mem.elim (fun mem => outside mem.1) fun mem => absurd (hB 49 mem).1 (by decide)
  have clear {v : Volume} (hv : rows v l 9 =
      newFile ⟨cString "boot_msg.txt", 13, 0b00001111, 4⟩ 9 49 1) (c : U64)
      (inside : (c - (rows v l 9).start).toNat < sectorsMoved ((rows v l 9).size.setWidth 16)) :
      c ∉ l ∧ c ≠ 4 := by
    rw [hv] at inside
    obtain rfl := block_of_bootFile inside
    exact ⟨outside, by decide⟩
  obtain ⟨s', done, stage₁, -⟩ := stage.writeFile env bootMsg (k := 9) (by omega) (by decide)
    (by rw [file]; rfl) (clear file)
  obtain ⟨t', done', stage₂, -⟩ := stage'.writeFile env bootMsg (k := 9) (by omega) (by decide)
    (by rw [file']; rfl) (clear file')
  obtain ⟨y, r, le', result', alike'⟩ := written.exists_ok done
  obtain rfl : t' = r := Except.ok.inj (done'.symm.trans result')
  refine ⟨s', t', y, l, ?_, ?_, alike', fun b hb => le'.1 (.inr hb), stage₁.toChain,
    stage₂.toChain⟩
  · rw [formatPartition_eq, made]
    exact done
  · rw [formatPartition_eq, made']
    exact done'

end Formatted

/-! ## The start of the formatter -/

omit [SectorAccess] in
/-- An entry's first flag is a bit of the block. -/
theorem inUse_entryIn (s : Volume) (b : U64) :
    (s.entryIn b).inUse = (s.block b 48).getLsbD 0 := rfl

omit [SectorAccess] in
/-- Of a block that the formatter writes, the entry read from it is not in use. -/
theorem inUse_writeHeader_one (s : Volume) : ((writeHeader s).entryIn 1).inUse = false := by
  rw [inUse_entryIn, block_writeHeader, if_neg (by decide), if_pos rfl]
  decide

theorem inUse_extend_one (h : Directory s [1] 6 0) :
    ((extend env s 1 1 6 0).entryIn 1).inUse = false := by
  have listed : Listed s ([] ++ [1]) := h.listed
  have hb : (6 : U64) ∉ ([] : List U64) ++ [1] := by decide
  have grown : Grown s [1] 6 (extend env s 1 1 6 0) [1, 6] 7 :=
    @Disk.extend _ env s 1 1 6 [] h.toDisk rfl (le_capacity_of_le (by decide))
  -- the byte is one of the link to block 6
  have linked : field ((extend env s 1 1 6 0).block 1) 46 8 = 6 := by
    have cached := congrArg (fun m => m.entry.nextIndexStart) grown.disk.cached
    have node := node_extend (i := 1) env 0 listed rfl hb 1 (by decide)
    rw [if_neg (by decide), if_pos rfl] at node
    exact cached.trans (congrArg Entry.nextIndexStart node)
  have bit := congrArg (fun w : U64 => w.getLsbD 16) linked
  rw [field, wordOfBytes_getLsbD _ _ (by decide)] at bit
  rw [inUse_entryIn]
  simpa using bit

section Start

variable (block : ∀ c, c ≠ 4 → s₀.block c = (writeHeader s).block c)
include block

omit [SectorAccess] in
theorem boot_of_start : s₀.entryIn 0 = (writeHeader s).entryIn 0 := by
  rw [entryIn, block 0 (by decide), entryIn]

/-- Where the first entry is read for the first time, the block read is one that the formatter
never wrote, unless it is one that reads as a free entry. -/
theorem unused_iff (h : Directory s₀ [1] 6 0) (bitmap : fbbGetBlock (writeHeader s) 48 = false) :
    ((extend env s₀ 1 1 6 0).entryIn b).inUse = false ↔
      b = 6 ∨ ((writeHeader s).entryIn b).inUse = false := by
  have listed : Listed s₀ ([] ++ [1]) := h.listed
  have hb : (6 : U64) ∉ ([] : List U64) ++ [1] := by decide
  by_cases six : b = 6
  · have new : (extend env s₀ 1 1 6 0).node 6 =
        { env.rawEntry s₀ with index := 1, flags := 0, nextIndexStart := 0 } := by
      rw [node_extend env 0 listed rfl hb 6 (by decide), if_pos rfl]
    rw [node, if_neg (by decide)] at new
    rw [six, new]
    exact ⟨fun _ => .inl rfl, fun _ => by simp [Entry.inUse]⟩
  by_cases one : b = 1
  · rw [one]
    exact ⟨fun _ => .inr (inUse_writeHeader_one s), fun _ => inUse_extend_one h⟩
  by_cases four : b = 4
  · -- the flag is the bit of block 48 in the bitmap
    have grown : Grown s₀ [1] 6 (extend env s₀ 1 1 6 0) [1, 6] 7 :=
      @Disk.extend _ env s₀ 1 1 6 [] h.toDisk rfl (le_capacity_of_le (by decide))
    have free : fbbGetBlock (extend env s₀ 1 1 6 0) 48 = false := by
      rw [fbbGetBlock_of_filled grown.disk.plain grown.disk.filled]
      simp
    have plain : (writeHeader s).Plain := rfl
    have low : (48 : U64).toNat < capacity := le_capacity_of_le (by decide)
    rw [fbbGetBlock_of_plain grown.disk.plain, if_pos low] at free
    rw [fbbGetBlock_of_plain plain, if_pos low] at bitmap
    rw [four]
    exact ⟨fun _ => .inr bitmap, fun _ => free⟩
  · rw [inUse_entryIn, inUse_entryIn, block_extend_first h.plain one four six, block b four]
    exact ⟨.inr, fun h => h.resolve_left six⟩

end Start

/-- The formatter starts well on a clean partition. -/
theorem Clean.started (clean : Clean s) (env : Env) : ∃ s₀, reserve s = .ok s₀ ∧ Started env s₀ ∧
    s₀.lbaStart = s.lbaStart ∧ s₀.sectorCount = s.sectorCount ∧
      s₀.entryIn 0 = (writeHeader s).entryIn 0 := by
  obtain ⟨s₀, eq, dir, root, lba, count, block⟩ := @reserved_directory _ s fun b low marked => by
    by_contra above
    rw [clean.bitmap b (by omega) low] at marked
    exact absurd marked nofun
  have boot := boot_of_start block
  refine ⟨s₀, eq, ⟨dir, root, ?_⟩, lba, count, boot⟩
  rw [boot]
  exact (unused_iff block dir (clean.bitmap 48 (by decide) (le_capacity_of_le (by decide)))).mpr clean.boot

/-! ## What the formatter forgets -/

/-- A search for an entry counts upwards. -/
theorem findFreeEntryFrom_le (short : i.toNat + n < 2 ^ 64)
    (found : findFreeEntryFrom env n i s e = .ok (t, f)) : i.toNat ≤ f.toNat + 1 := by
  induction n generalizing s e i with
  | zero => exact absurd found nofun
  | succ n ih =>
    rw [findFreeEntryFrom] at found
    split_ifs at found with inUse
    · obtain ⟨r, -, rest⟩ := bind_eq_ok.mp found
      have next : (i + 1).toNat = i.toNat + 1 := by
        rw [BitVec.toNat_add_of_lt (by change i.toNat + 1 < _; omega)]
        rfl
      have := ih (by omega) rest
      omega
    · obtain rfl : i - 1 = f := congrArg Prod.snd (Except.ok.inj found)
      have one : (1 : U64).toNat = 1 := rfl
      rw [BitVec.toNat_sub]
      omega

section Kernel

variable (kernel : env.findFreeBlock = findFreeBlock)
  (chance : ∀ s t, env.rawEntry s = env.rawEntry t) (bound : env.fuel + 1 < 2 ^ 64)
  (fuel : 514 ≤ env.fuel)
include kernel bound fuel

theorem clean_of_unused (h : Unused env s) : Clean s := by
  obtain ⟨s₀, s₁, eq, filled, found⟩ := h
  obtain ⟨t, marked, -, marks, -⟩ := @mark_first _ (writeHeader s) 6 rfl (le_capacity_of_le (by decide))
  obtain rfl : s₀ = t := Except.ok.inj (eq.symm.trans marked)
  have empty (b : U64) (low : b.toNat < capacity) (set : fbbGetBlock (writeHeader s) b = true) :
      b.toNat < 6 := by
    rw [← filled b low, marks, set, Bool.true_or]
  have bitmap (b : U64) (above : 6 ≤ b.toNat) (low : b.toNat < capacity) :
      fbbGetBlock (writeHeader s) b = false := by
    by_contra set
    exact absurd (empty b low (by simpa using set)) (by omega)
  obtain ⟨t, eq', dir, root, -, -, block⟩ := reserved_directory empty
  obtain rfl : s₀ = t := Except.ok.inj (eq.symm.trans eq')
  refine ⟨bitmap, ?_⟩
  rw [← boot_of_start block,
    ← @unused_iff _ env s s₀ _ block dir (bitmap 48 (by decide) (le_capacity_of_le (by decide)))]
  by_contra inUse
  have inUse := eq_true_of_ne_false inUse
  have first : readEntry env 1 s₀ = .ok (extend env s₀ 1 1 6 0,
      (extend env s₀ 1 1 6 0).entryIn (s₀.entryIn 0).nextIndexStart) :=
    (readEntry_follows kernel 1 s₀).ok (@readEntry_first _ env.strict s₀ rfl (show 2 ≤ env.fuel by omega) dir root)
  obtain ⟨m, hm⟩ : ∃ m, env.fuel = m + 1 + 1 := ⟨env.fuel - 2, by omega⟩
  have live : s₀.main.entry.inUse = true := by rw [root]; rfl
  rw [findFreeEntry, hm, findFreeEntryFrom, if_pos live, first, ok_bind] at found
  dsimp only at found
  rw [findFreeEntryFrom, if_pos inUse] at found
  obtain ⟨r, -, rest⟩ := bind_eq_ok.mp found
  have le := findFreeEntryFrom_le (by change 3 + m < 2 ^ 64; omega) rest
  exact absurd le (by decide)

omit bound in
theorem unused_of_clean (clean : Clean s) : Unused env s := by
  obtain ⟨s₀, eq, start, -⟩ := clean.started env.strict
  obtain ⟨found, -⟩ := @first_entry _ env.strict s₀ rfl (show 2 ≤ env.fuel by omega) start
  exact ⟨s₀, _, eq, start.filled, (findFreeEntry_follows kernel s₀).ok found⟩

include chance

theorem forgets_of_clean (bootMsg : Nat → U8) (lba : t.lbaStart = s.lbaStart)
    (count : t.sectorCount = s.sectorCount) (hs : Clean s) (ht : Clean t) :
    Forgets env bootMsg s t := by
  obtain ⟨s₀, eq, start, lba₀, count₀, boot⟩ := hs.started env.strict
  obtain ⟨t₀, eq', start', lba₁, count₁, boot'⟩ := ht.started env.strict
  obtain ⟨s', t', y, l, formatted, formatted', alike, sub, chain, chain'⟩ :=
    @formatPartition_alike _ env.strict s s₀ t t₀ {b | b = 0 ∧ SameBoot s t} rfl chance bound fuel
      bootMsg start start' eq eq' (by rw [lba₀, lba₁, lba]) (by rw [count₀, count₁, count])
      (fun b hb => ⟨hb.1, by rw [boot, boot', hb.2.1], by rw [boot, hb.2.2.1]⟩)
      (fun hb => by rw [count₀]; exact hb.2.2.2)
  refine ⟨unused_of_clean kernel fuel hs, unused_of_clean kernel fuel ht, s', t',
    (formatPartition_follows kernel bootMsg s).ok formatted,
    (formatPartition_follows kernel bootMsg t).ok formatted',
    ⟨alike.marks, alike.main, l, chain, chain', (alike.chain_eq chain).1⟩, fun calls served => ?_⟩
  obtain served | same := served
  · have coupled : Coupled y (Returned env.strict) (runCalls env.strict calls s')
        (runCalls env.strict calls t') := @runCalls_coupled _ env.strict y s' t' chance bound alike calls
    have served' : runCalls env.strict calls t' ≠ .error .noBlock := fun stop => by
      rw [stop] at coupled
      cases result : runCalls env.strict calls s' with
      | ok r => rw [result] at coupled; exact coupled
      | error c => rw [result] at coupled; exact served (by rw [result]; exact congrArg _ coupled)
    rw [runCalls_follows kernel calls s' served, runCalls_follows kernel calls t' served']
    exact (coupled.map_eq fun _ _ _ h => h.same.symm).symm
  · have mem : 0 ∈ y.blocks := sub ⟨rfl, same⟩
    have alike : Alike env y s' t' := { alike with search := .inr ⟨kernel, mem⟩ }
    exact ((runCalls_coupled chance bound alike calls).map_eq fun _ _ _ h => h.same.symm).symm

/-- The formatter forgets what two clean partitions held before, and no other. -/
theorem format_forgets_iff (bootMsg : Nat → U8) (lba : t.lbaStart = s.lbaStart)
    (count : t.sectorCount = s.sectorCount) :
    Forgets env bootMsg s t ↔ Clean s ∧ Clean t := by
  constructor
  · intro h
    exact ⟨clean_of_unused kernel bound fuel h.unused, clean_of_unused kernel bound fuel h.unused'⟩
  · rintro ⟨hs, ht⟩
    exact forgets_of_clean kernel chance bound fuel bootMsg lba count hs ht

end Kernel

/-! ## One sector of ones -/

/-- A floppy that is one partition of zeros, but for a sector of ones. -/
def stained (lba : U64) : Volume where
  sectors l _ := if l = lba then 0xFF else 0
  lbaStart := 0
  sectorCount := 2880
  main := ⟨fun _ => 0, 0, zeroEntry⟩
  written _ := zeroEntry

def stainedEnv : Env := Env.kernel (fun _ => zeroEntry) (fun _ _ => 0) 600

theorem clean_stained (boot : b ≠ 0) (bitmap : b ≠ 4) : Clean (stained b) := by
  have plain : (writeHeader (stained b)).Plain := rfl
  have zero (c : U64) (two : c ≠ 2) (one : c ≠ 1) (ne : b ≠ c) (k : Nat) :
      (writeHeader (stained b)).block c k = 0 := by
    have shift : c + (stained b).lbaStart.setWidth 64 = c := by simp [stained]
    rw [block_writeHeader, if_neg two, if_neg one, shift]
    exact if_neg ne.symm
  obtain ⟨next, unused⟩ := entryIn_of_zero fun k _ => zero 0 (by decide) (by decide) boot k
  refine ⟨fun c _ low => ?_, .inr (by rw [next, unused])⟩
  rw [fbbGetBlock_of_plain plain, if_pos low, zero 4 (by decide) (by decide) bitmap]
  exact BitVec.getLsbD_zero

theorem stainedEnv_fuel : 514 ≤ stainedEnv.fuel ∧ stainedEnv.fuel + 1 < 2 ^ 64 := by
  have fuel : stainedEnv.fuel = 600 := rfl
  rw [fuel]
  decide

theorem not_clean_stained : ¬Clean (stained 4) := by
  intro clean
  have plain : (writeHeader (stained 4)).Plain := rfl
  have low : (100 : U64).toNat < capacity := le_capacity_of_le (by decide)
  have free := clean.bitmap 100 (by decide) low
  rw [fbbGetBlock_of_plain plain, if_pos low, block_writeHeader] at free
  exact absurd free (by decide)

omit [SectorAccess] in
theorem format_forgets_stained : letI : SectorAccess := .driver
    Forgets stainedEnv (fun _ => 0) (stained 100) (stained 200) :=
  (@format_forgets_iff .driver (@stainedEnv .driver) (stained 100) (stained 200) rfl
    (fun _ _ => rfl) (@stainedEnv_fuel .driver).2 (@stainedEnv_fuel .driver).1 _ rfl rfl).mpr
    ⟨@clean_stained .driver 100 (by decide) (by decide),
      @clean_stained .driver 200 (by decide) (by decide)⟩

omit [SectorAccess] in
/-- A stain in block 4 marks blocks that nothing uses. -/
theorem format_remembers_bitmap : letI : SectorAccess := .driver
    ¬Forgets stainedEnv (fun _ => 0) (stained 100) (stained 4) := by
  let _ : SectorAccess := .driver
  intro h
  exact not_clean_stained (clean_of_unused rfl stainedEnv_fuel.2 stainedEnv_fuel.1 h.unused')

end ChudOS.GemFS
