import Mathlib.Data.List.Nodup

/-!
# Linked lists in a store

A store gives every node its successor; a list ends where the successor is `null`. The list that
starts at a node is unique and has no node twice.

## Main definitions

* `Path` — the nodes passed on the way from one node to another.
* `Linked` — the nodes of the list that starts at a node.
-/

namespace LinkedChain

variable {α : Type*}

/-- Following `next` from the first node passes the nodes of the list and arrives at the last. -/
def Path (next : α → α) : α → List α → α → Prop
  | a, [], b => a = b
  | a, x :: l, b => a = x ∧ Path next (next a) l b

/-- The nodes of the list that starts at `a`. -/
def Linked (next : α → α) (null a : α) (l : List α) : Prop :=
  Path next a l null ∧ null ∉ l

variable {next next' : α → α} {null a b c x : α} {l l' p q r : List α}

@[simp] theorem path_nil : Path next a [] b ↔ a = b := Iff.rfl

@[simp] theorem path_cons : Path next a (x :: l) b ↔ a = x ∧ Path next (next a) l b := Iff.rfl

theorem path_append : Path next a (p ++ q) c ↔ ∃ b, Path next a p b ∧ Path next b q c := by
  induction p generalizing a with
  | nil => simp
  | cons x p ih => simp [ih, and_assoc]

theorem Path.congr (h : Path next a l b) (agree : ∀ x ∈ l, next' x = next x) :
    Path next' a l b := by
  induction l generalizing a with
  | nil => exact h
  | cons x l ih =>
    obtain ⟨rfl, h⟩ := h
    refine ⟨rfl, ?_⟩
    rw [agree a (by simp)]
    exact ih h fun y hy => agree y (by simp [hy])

@[simp] theorem linked_nil : Linked next null a [] ↔ a = null := by simp [Linked]

theorem linked_cons : Linked next null a (x :: l) ↔
    a = x ∧ x ≠ null ∧ Linked next null (next x) l := by
  constructor
  · rintro ⟨⟨rfl, path⟩, absent⟩
    exact ⟨rfl, fun eq => absent (by simp [eq]), path, fun mem => absent (by simp [mem])⟩
  · rintro ⟨rfl, live, path, absent⟩
    exact ⟨⟨rfl, path⟩, by simp [absent, Ne.symm live]⟩

theorem linked_append : Linked next null a (p ++ q) ↔
    ∃ b, Path next a p b ∧ null ∉ p ∧ Linked next null b q := by
  simp only [Linked, path_append, List.mem_append, not_or]
  tauto

theorem Linked.congr (h : Linked next null a l) (agree : ∀ x ∈ l, next' x = next x) :
    Linked next' null a l :=
  ⟨h.1.congr agree, h.2⟩

/-- The list that starts at a node is unique. -/
theorem Linked.unique (h : Linked next null a l) (h' : Linked next null a l') : l = l' := by
  induction l generalizing a l' with
  | nil =>
    cases l' with
    | nil => rfl
    | cons y l' => exact absurd (linked_nil.mp h ▸ (linked_cons.mp h').1) (linked_cons.mp h').2.1.symm
  | cons x l ih =>
    obtain ⟨rfl, live, h⟩ := linked_cons.mp h
    cases l' with
    | nil => exact absurd (linked_nil.mp h') live
    | cons y l' =>
      obtain ⟨rfl, -, h'⟩ := linked_cons.mp h'
      rw [ih h h']

theorem Linked.nodup (h : Linked next null a l) : l.Nodup := by
  induction l generalizing a with
  | nil => exact List.nodup_nil
  | cons x l ih =>
    have whole := h
    obtain ⟨rfl, live, h⟩ := linked_cons.mp h
    refine List.nodup_cons.mpr ⟨fun mem => ?_, ih h⟩
    -- a node met again starts the same list, which would then be its own proper suffix
    obtain ⟨p, r, rfl⟩ := List.append_of_mem mem
    obtain ⟨b, -, -, again⟩ := linked_append.mp h
    obtain rfl := (linked_cons.mp again).1
    have eq := congrArg List.length (whole.unique again)
    simp at eq
    omega

theorem Linked.ne_null (h : Linked next null a l) (mem : x ∈ l) : x ≠ null :=
  fun eq => h.2 (eq ▸ mem)

theorem Linked.head (h : Linked next null a (x :: l)) : a = x := (linked_cons.mp h).1

/-- A node is followed by the next one of the list. -/
theorem Linked.next_getElem (h : Linked next null a l) {k : Nat} (hk : k + 1 < l.length) :
    next l[k] = l[k + 1] := by
  induction l generalizing a k with
  | nil => simp at hk
  | cons x l ih =>
    obtain ⟨rfl, -, h⟩ := linked_cons.mp h
    cases k with
    | zero =>
      obtain ⟨y, l, rfl⟩ := List.exists_cons_of_length_pos (Nat.lt_of_succ_lt_succ hk)
      exact h.head
    | succ k => exact ih h (Nat.lt_of_succ_lt_succ hk)

theorem Linked.next_last (h : Linked next null a (p ++ [x])) : next x = null := by
  obtain ⟨b, -, -, h⟩ := linked_append.mp h
  exact linked_nil.mp (linked_cons.mp h).2.2

/-- The nodes after one of the list, replaced by another list. -/
theorem Linked.splice (h : Linked next null a (p ++ x :: q)) (agree : ∀ y ∈ p, next' y = next y)
    (tail : Linked next' null (next' x) r) : Linked next' null a (p ++ x :: r) := by
  obtain ⟨b, path, absent, rest⟩ := linked_append.mp h
  obtain ⟨rfl, live, -⟩ := linked_cons.mp rest
  exact linked_append.mpr ⟨b, path.congr agree, absent, linked_cons.mpr ⟨rfl, live, tail⟩⟩

/-- A list that ends in the node `z`, or does not contain it, after `z` got successors. -/
theorem Linked.extend {z : α} (h : Linked next null a l) (last : next z = null)
    (agree : ∀ y ∈ l, y ≠ z → next' y = next y) (tail : Linked next' null (next' z) r) :
    ∃ l', Linked next' null a l' ∧ ∀ y ∈ l', y ∈ l ∨ y ∈ r := by
  by_cases mem : z ∈ l
  · obtain ⟨p, q, rfl⟩ := List.append_of_mem mem
    obtain ⟨b, -, -, rest⟩ := linked_append.mp h
    have ends : Linked next null null q := last ▸ (linked_cons.mp rest).2.2
    obtain rfl := ends.unique (linked_nil.mpr rfl)
    have apart : z ∉ p := by
      have nodup := h.nodup
      rw [List.nodup_append] at nodup
      exact fun hz => nodup.2.2 z hz z (by simp) rfl
    refine ⟨p ++ z :: r, h.splice (fun y hy => agree y (by simp [hy]) fun eq => apart (eq ▸ hy)) tail,
      fun y hy => ?_⟩
    simp only [List.mem_append, List.mem_cons] at hy ⊢
    tauto
  · exact ⟨l, h.congr fun y hy => agree y hy fun eq => mem (eq ▸ hy), fun y hy => .inl hy⟩

end LinkedChain
