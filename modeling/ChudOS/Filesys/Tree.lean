import ChudOS.Filesys.Creation

/-!
# The directory tree

The abstract directory: entries by index, of which those up to `u` are in use. An entry is a child
of the one it names as its parent; a directory links its children in the order of their creation.

## Main definitions

* `children` — the entries that name an entry as their parent.
* `Tree` — every directory links exactly its children.
* `addChild` — the entries after one more was created.
-/

namespace ChudOS.GemFS

open LinkedChain

def children (ent : Nat → Entry) (u d : Nat) : List Nat :=
  (List.range' 1 u).filter fun k => (ent k).parentIndex.toNat = d

/-- The sibling of an entry, by index. -/
def sibling (ent : Nat → Entry) (i : U64) : U64 := (ent i.toNat).siblingIndex

/-- The children of the directory `d` as its list links them. -/
def Lists (ent : Nat → Entry) (u d : Nat) : Prop :=
  Linked (sibling ent) 0 (ent d).start ((children ent u d).map (BitVec.ofNat 64))

structure Tree (ent : Nat → Entry) (u : Nat) : Prop where
  small : u < 2 ^ 32
  /-- Every entry but the first one is in a directory that was there before it. -/
  parent : ∀ k, 0 < k → k ≤ u →
    (ent k).parentIndex.toNat < k ∧ (ent (ent k).parentIndex.toNat).isDirectory = true
  lists : ∀ d ≤ u, (ent d).isDirectory = true → Lists ent u d

/-- The entry `e` is created after those in use, in the directory `p`. -/
def addChild (ent : Nat → Entry) (u p : Nat) (e : Entry) (k : Nat) : Entry :=
  if k = u + 1 then e
  else entryAfter (BitVec.ofNat 64 (u + 1)) p (children ent u p).getLast? k (ent k)

variable {ent ent' : Nat → Entry} {u p d k : Nat} {e : Entry}

theorem mem_children : k ∈ children ent u d ↔ 0 < k ∧ k ≤ u ∧ (ent k).parentIndex.toNat = d := by
  simp [children, List.mem_range'_1]
  omega

theorem children_sorted (ent : Nat → Entry) (u d : Nat) :
    (children ent u d).Pairwise (· < ·) :=
  List.Pairwise.filter _ List.pairwise_lt_range'

theorem children_congr (same : ∀ k ≤ u, (ent' k).parentIndex = (ent k).parentIndex) :
    children ent' u d = children ent u d := by
  refine List.filter_congr fun k hk => ?_
  rw [same k (by have := List.mem_range'_1.mp hk; omega)]

theorem children_succ (ent : Nat → Entry) (u d : Nat) : children ent (u + 1) d =
    children ent u d ++ if (ent (u + 1)).parentIndex.toNat = d then [u + 1] else [] := by
  rw [children, List.range'_1_concat, List.filter_append, Nat.add_comm 1 u]
  congr 1
  split_ifs with h <;> simp [h]

@[simp] theorem parentIndex_entryAfter {f : U64} {o : Option Nat} :
    (entryAfter f p o k e).parentIndex = e.parentIndex := by
  rw [entryAfter, parentAfter]
  split_ifs <;> rfl

@[simp] theorem isDirectory_entryAfter {f : U64} {o : Option Nat} :
    (entryAfter f p o k e).isDirectory = e.isDirectory := by
  rw [entryAfter, parentAfter]
  split_ifs <;> rfl

theorem siblingIndex_entryAfter {f : U64} {o : Option Nat} (h : k ≠ p → o ≠ some k) :
    (entryAfter f p o k e).siblingIndex = e.siblingIndex := by
  rw [entryAfter, parentAfter]
  split_ifs with h₁ _ h₂
  · rfl
  · rfl
  · exact absurd h₂ (h h₁)
  · rfl

theorem start_entryAfter {f : U64} {o : Option Nat} :
    (entryAfter f p o k e).start = if k = p ∧ e.start = 0 then f else e.start := by
  rw [entryAfter, parentAfter]
  split_ifs <;> simp_all

section AddChild

/-! ## One more child -/

theorem addChild_new : addChild ent u p e (u + 1) = e := if_pos rfl

theorem addChild_old (hk : k ≤ u) : addChild ent u p e k =
    entryAfter (BitVec.ofNat 64 (u + 1)) p (children ent u p).getLast? k (ent k) :=
  if_neg (by omega)

theorem children_addChild (d : Nat) : children (addChild ent u p e) (u + 1) d =
    children ent u d ++ if e.parentIndex.toNat = d then [u + 1] else [] := by
  have same := @children_congr ent (addChild ent u p e) u d fun k hk => by
    rw [addChild_old hk, parentIndex_entryAfter]
  rw [children_succ, addChild_new, same]

theorem addChild_congr (same : ∀ k ≤ u, ent' k = ent k) (hk : k ≤ u + 1) :
    addChild ent' u p e k = addChild ent u p e k := by
  rcases Nat.lt_or_ge u k with new | old
  · obtain rfl : k = u + 1 := by omega
    rw [addChild_new, addChild_new]
  · rw [addChild_old old, addChild_old old, same k old,
      children_congr fun j hj => by rw [same j hj]]

variable (h : Tree ent u) (hp : p ≤ u) (dir : (ent p).isDirectory = true)
  (parent : e.parentIndex.toNat = p) (start : e.start = 0) (single : e.siblingIndex = 0)
  (room : u + 1 < 2 ^ 32)

include h in
theorem Tree.toNat_ofNat (hk : k ≤ u + 1) : (BitVec.ofNat 64 k).toNat = k := by
  have := h.small
  rw [BitVec.toNat_ofNat]
  omega

include h in
theorem sibling_addChild (hk : k ≤ u) (other : k ≠ p → (children ent u p).getLast? ≠ some k) :
    sibling (addChild ent u p e) (BitVec.ofNat 64 k) = sibling ent (BitVec.ofNat 64 k) := by
  rw [sibling, sibling, h.toNat_ofNat (by omega), addChild_old hk, siblingIndex_entryAfter other]

include h parent in
/-- The other directories keep their lists. -/
theorem lists_addChild_of_ne (hd : d ≤ u) (ne : d ≠ p) (old : Lists ent u d) :
    Lists (addChild ent u p e) (u + 1) d := by
  have same : (addChild ent u p e d).start = (ent d).start := by
    rw [addChild_old hd, start_entryAfter, if_neg fun hc => ne hc.1]
  rw [Lists, same, children_addChild, if_neg (by omega), List.append_nil]
  refine old.congr fun x hx => ?_
  obtain ⟨k, hk, rfl⟩ := List.mem_map.mp hx
  obtain ⟨-, le, own⟩ := mem_children.mp hk
  refine sibling_addChild h le fun _ last => ne ?_
  rw [← own, (mem_children.mp (List.mem_of_getLast? last)).2.2]

include h hp dir parent single in
/-- The parent's list gets the new entry at its end. -/
theorem lists_addChild_self : Lists (addChild ent u p e) (u + 1) p := by
  have new : BitVec.ofNat 64 (u + 1) ≠ 0 := fun zero => by
    have := h.toNat_ofNat (Nat.le_refl (u + 1))
    rw [zero] at this
    simp at this
  have ends : Linked (sibling (addChild ent u p e)) 0 (BitVec.ofNat 64 (u + 1))
      [BitVec.ofNat 64 (u + 1)] := by
    refine linked_cons.mpr ⟨rfl, new, linked_nil.mpr ?_⟩
    rw [sibling, h.toNat_ofNat (Nat.le_refl _), addChild_new, single]
  have old := h.lists p hp dir
  rw [Lists, children_addChild, if_pos parent, List.map_append, List.map_singleton, addChild_old hp,
    start_entryAfter]
  rw [Lists] at old
  rcases List.eq_nil_or_concat (children ent u p) with none | ⟨init, last, eq⟩
  · rw [none] at old ⊢
    rw [if_pos ⟨rfl, linked_nil.mp old⟩]
    exact ends
  · rw [List.concat_eq_append] at eq
    have mem (k : Nat) (hk : k ∈ init ++ [last]) : k ≤ u ∧ k ≠ p := by
      rw [← eq] at hk
      obtain ⟨pos, le, own⟩ := mem_children.mp hk
      have := (h.parent k pos le).1
      exact ⟨le, by omega⟩
    have sorted := children_sorted ent u p
    rw [eq, List.pairwise_append] at sorted
    rw [eq, List.map_append, List.map_singleton] at old ⊢
    have nonempty : ¬ (ent p).start = 0 := fun zero => by
      rw [zero] at old
      have none : Linked (sibling ent) 0 0 [] := linked_nil.mpr rfl
      exact absurd (none.unique old) (by simp)
    rw [if_neg fun hc => nonempty hc.2, List.append_assoc]
    refine old.splice (fun x hx => ?_) ?_
    · obtain ⟨k, hk, rfl⟩ := List.mem_map.mp hx
      have := sorted.2.2 k hk last (by simp)
      refine sibling_addChild h (mem k (by simp [hk])).1 fun _ hlast => ?_
      rw [eq] at hlast
      simp at hlast
      omega
    · obtain ⟨le, ne⟩ := mem last (by simp)
      have link : sibling (addChild ent u p e) (BitVec.ofNat 64 last) = BitVec.ofNat 64 (u + 1) := by
        rw [sibling, h.toNat_ofNat (by omega), addChild_old le, entryAfter, if_neg ne,
          if_pos (by rw [eq]; simp)]
      rw [link]
      exact ends

include h hp dir parent start single room in
theorem Tree.addChild : Tree (addChild ent u p e) (u + 1) where
  small := room
  parent k pos le := by
    rcases Nat.lt_or_ge u k with new | old
    · obtain rfl : k = u + 1 := by omega
      rw [addChild_new, parent, addChild_old hp, isDirectory_entryAfter]
      exact ⟨by omega, dir⟩
    · obtain ⟨lt, isDir⟩ := h.parent k pos old
      rw [addChild_old old, parentIndex_entryAfter, addChild_old (by omega), isDirectory_entryAfter]
      exact ⟨lt, isDir⟩
  lists d hd isDir := by
    rcases Nat.lt_or_ge u d with new | old
    · -- a new directory is empty
      obtain rfl : d = u + 1 := by omega
      have none : children ent u (u + 1) = [] := by
        refine List.eq_nil_iff_forall_not_mem.mpr fun k hk => ?_
        obtain ⟨pos, le, own⟩ := mem_children.mp hk
        have := (h.parent k pos le).1
        omega
      rw [Lists, children_addChild, none, if_neg (by omega), addChild_new, start]
      exact linked_nil.mpr rfl
    · rw [addChild_old old, isDirectory_entryAfter] at isDir
      by_cases eq : d = p
      · rw [eq]
        exact lists_addChild_self h hp dir parent single
      · exact lists_addChild_of_ne h parent old eq (h.lists d old isDir)

end AddChild

/-- The lists of directories do not depend on where files start. -/
theorem Tree.congr (h : Tree ent u) (parent : ∀ k ≤ u, (ent' k).parentIndex = (ent k).parentIndex)
    (sib : ∀ k ≤ u, (ent' k).siblingIndex = (ent k).siblingIndex)
    (dir : ∀ k ≤ u, (ent' k).isDirectory = (ent k).isDirectory)
    (start : ∀ k ≤ u, (ent k).isDirectory = true → (ent' k).start = (ent k).start) :
    Tree ent' u where
  small := h.small
  parent k pos le := by
    have old := h.parent k pos le
    rw [parent k le, dir _ (by omega)]
    exact old
  lists d hd isDir := by
    rw [dir d hd] at isDir
    rw [Lists, children_congr parent, start d hd isDir]
    refine (h.lists d hd isDir).congr fun x hx => ?_
    obtain ⟨k, hk, rfl⟩ := List.mem_map.mp hx
    obtain ⟨-, le, -⟩ := mem_children.mp hk
    rw [sibling, sibling, h.toNat_ofNat (by omega), sib k le]

end ChudOS.GemFS
