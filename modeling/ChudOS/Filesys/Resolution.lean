import ChudOS.Filesys.DirectoryTree
import ChudOS.Filesys.PathLookup
import ChudOS.Library.NameTree
import Mathlib.Data.List.FinRange

/-!
# What a path leads to

`GemFS_Directory_to_Index` on a disk whose entries form a directory tree. It follows the names of the
path along the children. An entry without children shows the root in their place.

## Main definitions

* `letters` — a name up to its first zero.
* `nextEntry` — the entry that a name leads to.
* `Spells` — a path in memory.
-/

namespace ChudOS.GemFS

open Volume LinkedChain Outcome NameTree

/-! ## Names -/

section Letters

variable {w : Nat} {name : Fin w → U8}

def letters (name : Fin w → U8) : List U8 := (List.ofFn name).takeWhile (· ≠ 0)

def Terminated (name : Fin w → U8) : Prop := ∃ i, name i = 0

instance : Decidable (Terminated name) := inferInstanceAs (Decidable (∃ i, name i = 0))

theorem Terminated.exists_first (h : Terminated name) :
    ∃ k : Fin w, name k = 0 ∧ ∀ i < k, name i ≠ 0 := by
  obtain ⟨i, zero⟩ := h
  obtain ⟨k, found⟩ := Option.isSome_iff_exists.mp (List.find?_isSome (p := fun i => name i = 0).mpr
    ⟨i, List.mem_finRange i, decide_eq_true zero⟩)
  obtain ⟨zero, j, hj, rfl, live⟩ := List.find?_eq_some_iff_getElem.mp found
  refine ⟨_, of_decide_eq_true zero, fun i lt => ?_⟩
  have below : i.val < j := by
    simpa only [List.getElem_finRange, Fin.val_cast] using Fin.lt_def.mp lt
  simpa using live i below

variable {k : Fin w} (zero : name k = 0) (live : ∀ i < k, name i ≠ 0)
include zero live

theorem letters_of_first : letters name = (List.ofFn name).take k := by
  have at_k : (List.ofFn name)[k.val]? = some 0 := by simp [zero]
  obtain ⟨lt, here⟩ := List.getElem?_eq_some_iff.mp at_k
  have split : (List.ofFn name).take k ++ 0 :: (List.ofFn name).drop (k + 1) = List.ofFn name := by
    rw [← here, List.cons_getElem_drop_succ, List.take_append_drop]
  rw [letters]
  nth_rewrite 1 [← split]
  rw [List.takeWhile_append_of_pos, List.takeWhile_cons_of_neg (by simp), List.append_nil]
  intro a mem
  obtain ⟨i, hi, rfl⟩ := List.mem_take_iff_getElem.mp mem
  have below : i < k.val := by omega
  simpa using live ⟨i, by omega⟩ below

theorem length_letters_of_first : (letters name).length = k := by
  rw [letters_of_first zero live, List.length_take, List.length_ofFn]
  omega

end Letters

variable {env : Env} {s : Volume} {l : List U64} {n m u i j k d : Nat} {e : Entry}
  {name name₁ name₂ scan : Fin 128 → U8} {directory : Nat → U8}

theorem stringLength_of_first {k : Fin 128} (zero : name k = 0) (live : ∀ i < k, name i ≠ 0) :
    stringLength name = .ok k.val := by
  have found : (List.finRange 128).find? (fun i => name i = 0) = some k := by
    refine List.find?_eq_some_iff_getElem.mpr ⟨decide_eq_true zero, k, by simp, by simp, fun j hj => ?_⟩
    simpa using live ⟨j, by omega⟩ hj
  rw [stringLength, found]

theorem stringLength_eq (h : Terminated name) : stringLength name = .ok (letters name).length := by
  obtain ⟨k, zero, live⟩ := h.exists_first
  rw [stringLength_of_first zero live, length_letters_of_first zero live]

/-- Letters up to an array's first zero are compared one by one. -/
theorem sameLetters_eq {r : List (Fin 128)} (live : ∀ i ∈ r, name₁ i ≠ 0) :
    sameLetters name₁ name₂ r = decide (r.map name₁ = r.map name₂) := by
  induction r with
  | nil => rfl
  | cons i r ih =>
    rw [sameLetters, if_neg fun both => live i List.mem_cons_self both.1,
      ih fun j mem => live j (List.mem_cons_of_mem i mem)]
    by_cases same : name₁ i = name₂ i <;> simp [same]

theorem namesEqual_eq (h₁ : Terminated name₁) (h₂ : Terminated name₂) :
    namesEqual name₁ name₂ (letters name₁).length (letters name₂).length =
      decide (letters name₁ = letters name₂) := by
  obtain ⟨k, zero, live⟩ := h₁.exists_first
  obtain ⟨k', zero', live'⟩ := h₂.exists_first
  have length := length_letters_of_first zero live
  have length' := length_letters_of_first zero' live'
  rw [namesEqual]
  by_cases same : (letters name₁).length = (letters name₂).length
  · have at_k (f : Fin 128 → U8) : (List.ofFn f).take k = ((List.finRange 128).take k).map f := by
      rw [List.map_take, List.ofFn_eq_map]
    have eq : k'.val = k.val := by rw [← length, ← length', same]
    rw [if_neg (not_not.mpr same), letters_of_first zero live, letters_of_first zero' live', eq,
      at_k, at_k, List.length_map, List.length_take, List.length_finRange, Nat.min_eq_left k.isLt.le]
    refine sameLetters_eq fun i mem => live i ?_
    obtain ⟨j, hj, rfl⟩ := List.mem_take_iff_getElem.mp mem
    rw [List.getElem_finRange]
    exact (lt_min_iff.mp hj).1
  · rw [if_pos same]
    exact (decide_eq_false fun eq => same (congrArg _ eq)).symm

theorem isNamed_eq (h : Terminated name) (he : Terminated e.name) :
    isNamed name e = .ok (decide (letters e.name = letters name)) := by
  rw [isNamed, stringLength_eq h, ok_bind, stringLength_eq he, ok_bind, namesEqual_eq h he]
  simp only [eq_comm]
  rfl

/-! ## One name -/

section Next

variable (ent : Nat → Entry) (u d : Nat)

/-- The entries among which a name is searched. -/
def shown : List Nat := if children ent u d = [] then [0] else children ent u d

/-- The root is its own child while it has none, whatever the name. -/
def nextEntry (x : List U8) : Option Nat :=
  if d = 0 ∧ children ent u d = [] then some 0
  else (shown ent u d).find? fun k => letters (ent k).name = x

end Next

def indexOf : Option Nat → U64
  | some k => BitVec.ofNat 64 k
  | none => -1

variable [SectorAccess]

/-- A directory tree whose names end, and whose root has no sibling. -/
structure Legible (s : Volume) (l : List U64) (n u : Nat) : Prop extends Directory s l n u where
  terminated : ∀ k ≤ u, Terminated (rows s l k).name
  single : (rows s l 0).siblingIndex = 0

variable {u : Nat}

/-- The walk along the siblings ends at the entry with the name, or at the last one. -/
theorem namedSiblingFrom_eq (h : Legible s l n u) (fuel : 0 < env.fuel) (named : Terminated name)
    (hk : k ≤ u) {cs : List Nat} (inside : ∀ c ∈ cs, c ≤ u)
    (links : Linked (sibling (rows s l)) 0 (rows s l k).siblingIndex (cs.map (BitVec.ofNat 64)))
    (hm : cs.length < m) :
    ∃ j ≤ u, namedSiblingFrom env name m s (s.node (l.getD k 0)) = .ok (s, s.node (l.getD j 0)) ∧
      ((k :: cs).find? (fun c => letters (rows s l c).name = letters name) = some j ∨
        (k :: cs).find? (fun c => letters (rows s l c).name = letters name) = none ∧
          (rows s l j).siblingIndex = 0 ∧ letters (rows s l j).name ≠ letters name) := by
  have used := h.used
  induction m generalizing k cs with
  | zero => exact absurd hm (Nat.not_lt_zero _)
  | succ m ih =>
    have here : isNamed name (s.node (l.getD k 0)) =
        .ok (decide (letters (rows s l k).name = letters name)) :=
      isNamed_eq named (h.terminated k hk)
    rw [namedSiblingFrom, here, ok_bind]
    by_cases same : letters (rows s l k).name = letters name
    · refine ⟨k, hk, ?_, .inl (List.find?_cons_of_pos (decide_eq_true same))⟩
      rw [decide_eq_true same, if_neg fun both => Bool.noConfusion both.1]
      rfl
    · have skip := List.find?_cons_of_neg (l := cs)
        (p := fun c => letters (rows s l c).name = letters name) (a := k) (by simpa using same)
      rw [decide_eq_false same, skip]
      cases cs with
      | nil =>
        have last := linked_nil.mp links
        refine ⟨k, hk, ?_, .inr ⟨rfl, last, same⟩⟩
        rw [if_neg fun both => both.2 last]
        rfl
      | cons c cs =>
        obtain ⟨eq, live, rest⟩ := linked_cons.mp links
        have hc := inside c List.mem_cons_self
        have lt : c < l.length := by omega
        have small : (BitVec.ofNat 64 c).toNat = c := Nat.mod_eq_of_lt (lt.trans h.short)
        rw [sibling, small] at rest
        have go : (s.node (l.getD k 0)).siblingIndex = BitVec.ofNat 64 c := eq
        have place : s.node l[c] = s.node (l.getD c 0) := by simp [lt]
        rw [if_pos ⟨rfl, go ▸ live⟩, go, h.readEntry_eq fuel lt, ok_bind, place]
        exact ih hc (fun x mem => inside x (List.mem_cons_of_mem c mem)) rest
          (Nat.lt_of_succ_lt_succ hm)

/-- `GemFS_Find_Index_By_Name` from the first entry that it looks at. -/
theorem search_eq (h : Legible s l n u) (fuel : 514 ≤ env.fuel) (named : Terminated name)
    (hk : k ≤ u) {cs : List Nat} (inside : ∀ c ∈ cs, c ≤ u)
    (links : Linked (sibling (rows s l)) 0 (rows s l k).siblingIndex (cs.map (BitVec.ofNat 64)))
    (hm : cs.length < env.fuel) :
    (do
      let (s, e) ← readEntry env (BitVec.ofNat 64 k) s
      let (s, e) ← namedSiblingFrom env name env.fuel s e
      let equal ← isNamed name e
      return (s, if e.siblingIndex = 0 ∧ equal = false then -1 else e.index)) =
    Except.ok (s, indexOf ((k :: cs).find? fun c => letters (rows s l c).name = letters name)) := by
  have used := h.used
  have lt : k < l.length := by omega
  have place : s.node l[k] = s.node (l.getD k 0) := by simp [lt]
  obtain ⟨j, hj, eq, out⟩ := @namedSiblingFrom_eq env s l n env.fuel k name _ u h (by omega) named hk cs
    inside links hm
  rw [h.readEntry_eq (by omega) lt, ok_bind, place]
  dsimp only
  have here : isNamed name (s.node (l.getD j 0)) =
      .ok (decide (letters (rows s l j).name = letters name)) :=
    isNamed_eq named (h.terminated j hj)
  rw [eq, ok_bind]
  dsimp only
  rw [here, ok_bind]
  obtain found | ⟨missed, last, other⟩ := out
  · have same := List.find?_some found
    have at_j : j < l.length := by omega
    have index : (s.node (l.getD j 0)).index = BitVec.ofNat 64 j := by
      rw [show l.getD j 0 = l[j] by simp [at_j]]
      exact h.index_ofNat at_j
    rw [same, if_neg fun both => Bool.noConfusion both.2, index, found]
    rfl
  · have last : (s.node (l.getD j 0)).siblingIndex = 0 := last
    rw [decide_eq_false other, if_pos ⟨last, rfl⟩, missed]
    rfl

omit [SectorAccess] in
theorem length_children_le (ent : Nat → Entry) (u d : Nat) : (children ent u d).length ≤ u := by
  have le := List.length_filter_le (fun k => (ent k).parentIndex.toNat = d) (List.range' 1 u)
  rwa [List.length_range'] at le

/-- `GemFS_Find_Index_By_Name` on a directory finds the entry that the name leads to. -/
theorem findIndexByName_eq (h : Legible s l n u) (fuel : 514 ≤ env.fuel) (named : Terminated name)
    (hd : d ≤ u) (dir : (rows s l d).isDirectory = true) :
    findIndexByName env name (BitVec.ofNat 64 d) s =
      .ok (s, indexOf (nextEntry (rows s l) u d (letters name))) := by
  have used := h.used
  have long := h.length_le.trans h.le_blocks
  have small (k : Nat) (hk : k ≤ u) : (BitVec.ofNat 64 k).toNat = k :=
    Nat.mod_eq_of_lt ((show k < l.length by omega).trans h.short)
  have count := length_children_le (rows s l) u d
  have lists := h.tree.lists d hd dir
  have lt : d < l.length := by omega
  have start : (rows s l d).start = (s.node l[d]).start := by rw [rows_eq lt]; rfl
  rw [Lists, start] at lists
  rw [findIndexByName, h.readEntry_eq (by omega) lt, ok_bind]
  dsimp only
  rw [h.index_ofNat lt, nextEntry, shown]
  cases none : children (rows s l) u d with
  | nil =>
    rw [none] at lists
    rw [linked_nil.mp lists, if_pos rfl]
    by_cases root : d = 0
    · subst root
      rw [if_pos (show (0 : U64) = 0#64 from rfl), if_pos ⟨rfl, rfl⟩]
      rfl
    · have other : (0 : U64) ≠ BitVec.ofNat 64 d := fun eq => root <| by
        rw [← small d hd, ← eq]
        rfl
      rw [if_neg other, if_neg fun both => root both.1]
      have alone : ∀ c ∈ ([] : List Nat), c ≤ u := fun c mem => absurd mem List.not_mem_nil
      exact search_eq h fuel named (k := 0) (Nat.zero_le u) alone (linked_nil.mpr h.single)
        (by simp; omega)
  | cons c cs =>
    have mem (k : Nat) (hk : k ∈ c :: cs) : 0 < k ∧ k ≤ u ∧ (rows s l k).parentIndex.toNat = d :=
      mem_children.mp (none ▸ hk)
    rw [none] at lists count
    obtain ⟨eq, -, rest⟩ := linked_cons.mp lists
    obtain ⟨pos, hc, own⟩ := mem c List.mem_cons_self
    have younger := (h.tree.parent c pos hc).1
    have other : BitVec.ofNat 64 c ≠ BitVec.ofNat 64 d := fun same => by
      have := congrArg BitVec.toNat same
      rw [small c hc, small d hd] at this
      omega
    rw [sibling, small c hc] at rest
    rw [eq, if_neg other, if_neg fun both => List.cons_ne_nil c cs both.2, if_neg (List.cons_ne_nil c cs)]
    exact search_eq h fuel named hc (fun k hk => (mem k (List.mem_cons_of_mem c hk)).2.1) rest
      (by rw [List.length_cons] at count; omega)

/-! ## A path -/

/-- The names of a path lie in memory one after the other, with slashes between them and a zero at
the end. -/
def Spells (directory : Nat → U8) : Nat → List (List U8) → Prop
  | _, [] => False
  | i, [x] => (∀ j (hj : j < x.length), directory (i + j) = x[j]) ∧ directory (i + x.length) = 0
  | i, x :: y :: p => (∀ j (hj : j < x.length), directory (i + j) = x[j]) ∧
      directory (i + x.length) = 0x2F ∧ Spells directory (i + x.length + 1) (y :: p)

/-- A name that fits into the array of the scan. -/
def Component (x : List U8) : Prop := x ≠ [] ∧ x.length < 128 ∧ 0 ∉ x ∧ 0x2F ∉ x

instance (x : List U8) : Decidable (Component x) := inferInstanceAs (Decidable (_ ∧ _))

/-- The letters of a name are copied one by one. -/
theorem directoryToIndexFrom_scan {x : List U8} {cur : U32} (h : Component x)
    (spelled : ∀ j (hj : j < x.length), directory (i + j) = x[j]) (hk : k ≤ x.length) :
    ∃ scan', directoryToIndexFrom env directory (m + (x.length - k)) (i + k) i cur scan s =
        directoryToIndexFrom env directory m (i + x.length) i cur scan' s ∧
      (∀ j : Fin 128, j < k ∨ x.length ≤ j → scan' j = scan j) ∧
      ∀ j (hj : j < x.length), k ≤ j → scan' ⟨j, hj.trans h.2.1⟩ = x[j] := by
  obtain ⟨-, short, live, plain⟩ := h
  induction left : x.length - k generalizing k scan with
  | zero =>
    obtain rfl : k = x.length := by omega
    exact ⟨scan, rfl, fun _ _ => rfl, fun j hj le => absurd hj (by omega)⟩
  | succ r ih =>
    have lt : k < x.length := by omega
    have letter := spelled k lt
    have mem := List.getElem_mem lt
    have go : ¬ (directory (i + k) = 0x2F ∨ directory (i + k) = 0) := by
      rw [letter]
      exact fun ends => ends.elim (fun eq => plain (eq ▸ mem)) fun eq => live (eq ▸ mem)
    have at_k : i + k - i = k := by omega
    obtain ⟨scan', eq, old, new⟩ := @ih k.succ
      (Function.update scan ⟨i + k - i, by omega⟩ (directory (i + k))) lt (by omega)
    refine ⟨scan', ?_, fun j hj => ?_, fun j hj le => ?_⟩
    · rw [← Nat.add_assoc, directoryToIndexFrom, if_neg go, dif_pos (by omega)]
      exact eq
    · rw [old j (by omega), Function.update_of_ne]
      intro same
      have := congrArg Fin.val same
      simp only [at_k] at this
      omega
    · rcases Nat.eq_or_lt_of_le le with rfl | more
      · rw [old ⟨k, by omega⟩ (.inl (Nat.lt_succ_self k)), ← letter]
        simp [at_k]
      · exact new j hj more

omit [SectorAccess] in
theorem letters_of_scan {x : List U8} (h : Component x)
    (scanned : ∀ j (hj : j < x.length), scan ⟨j, hj.trans h.2.1⟩ = x[j])
    (ends : scan ⟨x.length, h.2.1⟩ = 0) : Terminated scan ∧ letters scan = x := by
  have live (j : Fin 128) (hj : j < ⟨x.length, h.2.1⟩) : scan j ≠ 0 := by
    have lt : j.val < x.length := hj
    rw [scanned j lt]
    exact fun eq => h.2.2.1 (eq ▸ List.getElem_mem lt)
  refine ⟨⟨_, ends⟩, ?_⟩
  rw [letters_of_first ends live]
  refine List.ext_getElem ?_ fun j hj hj' => ?_
  · rw [List.length_take, List.length_ofFn]
    exact Nat.min_eq_left h.2.1.le
  · rw [List.getElem_take, List.getElem_ofFn]
    exact scanned j hj'

/-- The way from `d` along the path goes through directories. -/
def Through (ent : Nat → Entry) (u d : Nat) (p : List (List U8)) : Prop :=
  ∀ q x r, p = q ++ x :: r → ∀ k, resolve (nextEntry ent u) d q = some k → (ent k).isDirectory = true

omit [SectorAccess] in
theorem through_nil {ent : Nat → Entry} : Through ent u d [] :=
  fun q x r eq => absurd eq.symm (List.append_ne_nil_of_right_ne_nil q (List.cons_ne_nil x r))

omit [SectorAccess] in
theorem through_cons {ent : Nat → Entry} {x : List U8} {p : List (List U8)}
    (dir : (ent d).isDirectory = true) (rest : ∀ k, nextEntry ent u d x = some k → Through ent u k p) :
    Through ent u d (x :: p) := by
  rintro (- | ⟨y, q⟩) z r eq k found
  · exact Option.some.inj found ▸ dir
  · obtain ⟨rfl, rfl⟩ := List.cons.inj eq
    obtain ⟨j, first, rest'⟩ := Option.bind_eq_some_iff.mp found
    exact rest j first q z r rfl k rest'

omit [SectorAccess] in
theorem nextEntry_le {ent : Nat → Entry} {x : List U8} (next : nextEntry ent u d x = some k) :
    k ≤ u := by
  rw [nextEntry] at next
  split_ifs at next
  · exact Option.some.inj next ▸ Nat.zero_le u
  · have mem := List.mem_of_find?_eq_some next
    rw [shown] at mem
    split_ifs at mem
    · exact List.mem_singleton.mp mem ▸ Nat.zero_le u
    · exact (mem_children.mp mem).2.1

omit [SectorAccess] in
/-- An index goes through the `int` that the walk keeps it in. -/
theorem index_int (hk : k < 2 ^ 31) : (BitVec.ofNat 64 k).setWidth 32 = (BitVec.ofNat 32 k) ∧
    (BitVec.ofNat 32 k).signExtend 64 = BitVec.ofNat 64 k ∧ (BitVec.ofNat 32 k) ≠ -1 := by
  have small : (BitVec.ofNat 32 k).toNat = k := Nat.mod_eq_of_lt (by omega)
  have positive : (BitVec.ofNat 32 k).msb = false := by
    rw [BitVec.msb_eq_false_iff_two_mul_lt, small]
    omega
  refine ⟨?_, ?_, fun eq => ?_⟩
  · rw [BitVec.setWidth_ofNat_of_le (by decide)]
  · rw [BitVec.signExtend_eq_setWidth_of_msb_false positive]
    apply BitVec.eq_of_toNat_eq
    rw [BitVec.toNat_setWidth, small, BitVec.toNat_ofNat]
  · rw [eq] at positive
    exact absurd positive (by decide)

/-- The walk over one name, of which the first `k` letters are scanned. -/
theorem directoryToIndexFrom_component (h : Legible s l n u) (fuel : 514 ≤ env.fuel) {x : List U8}
    (hd : d ≤ u) (dir : (rows s l d).isDirectory = true) (name : Component x)
    (text : ∀ j (hj : j < x.length), directory (i + j) = x[j])
    (stop : directory (i + x.length) = 0x2F ∨ directory (i + x.length) = 0) (hk : k ≤ x.length)
    (scanned : ∀ j (hj : j < x.length), j < k → scan ⟨j, hj.trans name.2.1⟩ = x[j])
    (ends : scan ⟨x.length, name.2.1⟩ = 0) :
    directoryToIndexFrom env directory (m + 1 + (x.length - k)) (i + k) i (BitVec.ofNat 32 d) scan s =
      match nextEntry (rows s l) u d x with
      | none => .ok (s, -1)
      | some j =>
        if directory (i + x.length) = 0 then .ok (s, BitVec.ofNat 64 j)
        else directoryToIndexFrom env directory m (i + x.length + 2) (i + x.length + 1)
          (BitVec.ofNat 32 j) (fun k => if k = 0 then directory (i + x.length + 1) else 0) s := by
  have used := h.used
  have long := h.length_le.trans h.le_blocks
  obtain ⟨scan', eq, old, new⟩ := @directoryToIndexFrom_scan env s (m + 1) i k scan directory _ x
    (BitVec.ofNat 32 d) name text hk
  have whole (j : Nat) (hj : j < x.length) : scan' ⟨j, hj.trans name.2.1⟩ = x[j] := by
    rcases Nat.lt_or_ge j k with before | after
    · rw [old _ (.inl before), scanned j hj before]
    · exact new j hj after
  have zero : scan' ⟨x.length, name.2.1⟩ = 0 := by rw [old _ (.inr (Nat.le_refl _)), ends]
  obtain ⟨terminated, spelled⟩ := letters_of_scan name whole zero
  have found := @findIndexByName_eq env s l n d scan' _ u h fuel terminated hd dir
  rw [spelled] at found
  obtain ⟨-, wide, -⟩ := @index_int d (by omega)
  rw [eq, directoryToIndexFrom, if_pos stop, wide, found, ok_bind]
  dsimp only
  cases next : nextEntry (rows s l) u d x with
  | none => exact if_pos rfl
  | some j =>
    have hj := nextEntry_le next
    obtain ⟨narrow, wide, live⟩ := @index_int j (by omega)
    rw [indexOf, narrow, if_neg live, wide]
    rfl

/-- The walk from the entry `d` on, where the first `k` letters of the next name are scanned. -/
theorem directoryToIndexFrom_eq (h : Legible s l n u) (fuel : 514 ≤ env.fuel) {x : List U8}
    {p : List (List U8)} (hd : d ≤ u) (spelled : Spells directory i (x :: p))
    (names : ∀ y ∈ x :: p, Component y) (through : Through (rows s l) u d (x :: p))
    (hk : k ≤ x.length) (scanned : ∀ (j : Fin 128) (hj : j < x.length), j < k → scan j = x[j])
    (ends : ∀ j : Fin 128, j = x.length → scan j = 0)
    (room : ((x :: p).map (·.length + 1)).sum ≤ m) :
    directoryToIndexFrom env directory m (i + k) i (BitVec.ofNat 32 d) scan s =
      .ok (s, indexOf (resolve (nextEntry (rows s l) u) d (x :: p))) := by
  have name := names x List.mem_cons_self
  have dir := through [] x p rfl d rfl
  induction p generalizing d i k m x scan with
  | nil =>
    obtain ⟨text, stop⟩ := spelled
    obtain ⟨m, rfl⟩ : ∃ m', m = m' + 1 + (x.length - k) :=
      ⟨m - 1 - (x.length - k), by simp at room; omega⟩
    rw [directoryToIndexFrom_component h fuel hd dir name text (.inr stop) hk
      (fun j hj lt => scanned _ hj lt) (ends _ rfl), resolve]
    cases nextEntry (rows s l) u d x with
    | none => rfl
    | some j => exact if_pos stop
  | cons y p ih =>
    obtain ⟨text, slash, rest⟩ := spelled
    obtain ⟨m, rfl⟩ : ∃ m', m = m' + 1 + (x.length - k) :=
      ⟨m - 1 - (x.length - k), by simp at room; omega⟩
    have more : ¬ directory (i + x.length) = 0 := by rw [slash]; decide
    rw [directoryToIndexFrom_component h fuel hd dir name text (.inl slash) hk
      (fun j hj lt => scanned _ hj lt) (ends _ rfl), resolve]
    cases next : nextEntry (rows s l) u d x with
    | none => rfl
    | some j =>
      dsimp only
      rw [if_neg more, Option.bind_some]
      have named := names y (List.mem_cons_of_mem x List.mem_cons_self)
      have onward : Through (rows s l) u j (y :: p) := fun q z r eq k found =>
        through (x :: q) z r (by rw [eq]; rfl) k (by rw [resolve, next]; exact found)
      have some := List.length_pos_iff.mpr named.1
      have first : directory (i + x.length + 1) = y[0] := by
        cases p with
        | nil => exact rest.1 0 some
        | cons z p => exact rest.1 0 some
      refine ih (k := 1) (nextEntry_le next) rest (fun z mem => names z (List.mem_cons_of_mem x mem)) onward
        some (fun j hj lt => ?_) (fun j eq => ?_) (by simp at room ⊢; omega) named
        (onward [] y p rfl j rfl)
      · obtain rfl : j = 0 := Fin.ext (Nat.lt_one_iff.mp lt)
        exact (if_pos rfl).trans first
      · refine if_neg fun zero => ?_
        rw [zero] at eq
        exact absurd eq.symm (Nat.ne_of_gt some)

/-- `GemFS_Directory_to_Index` gives the entry that the names of the path lead to, where the way
there goes through directories and the array of the scan holds a zero after the first name. -/
theorem directoryToIndex_eq (h : Legible s l n u) (fuel : 514 ≤ env.fuel) {x : List U8}
    {p : List (List U8)}
    (spelled : Spells directory (if directory 0 = 0x2F then 1 else 0) (x :: p))
    (names : ∀ y ∈ x :: p, Component y) (through : Through (rows s l) u 0 (x :: p))
    (ends : ∀ j : Fin 128, j = x.length → scan j = 0)
    (room : ((x :: p).map (·.length + 1)).sum ≤ env.fuel) :
    directoryToIndex env scan directory s =
      .ok (s, indexOf (resolve (nextEntry (rows s l) u) 0 (x :: p))) :=
  directoryToIndexFrom_eq h fuel (k := 0) (Nat.zero_le u) spelled names through (Nat.zero_le _)
    (fun j _ lt => absurd lt (Nat.not_lt_zero j)) ends room

end ChudOS.GemFS
