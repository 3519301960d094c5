import Mathlib.Algebra.Ring.Int.Defs
import Mathlib.Logic.Function.Basic
import Mathlib.Data.List.Basic
import Mathlib.Data.List.Range

/-!
# Buffers of a fixed size

A buffer that notes whether every access so far was to one of its cells. A store outside is
dropped; a load there finds whatever `cells` says.

* `Buffer.Holds` — the cells from a place on hold the elements of a list.
* `Buffer.Text` — a terminated text from the first cell on.
-/

structure Buffer (α : Type*) where
  size : Nat
  cells : Int → α
  inside : Bool

namespace Buffer

variable {α : Type*} {b b' d : Buffer α} {a c i j : Int} {x : α} {xs ys : List α} {n : Nat}

def Valid (b : Buffer α) (i : Int) : Prop := 0 ≤ i ∧ i < b.size

instance (b : Buffer α) (i : Int) : Decidable (b.Valid i) := inferInstanceAs (Decidable (_ ∧ _))

/-- Notes an access. -/
def touch (b : Buffer α) (i : Int) : Buffer α := { b with inside := b.inside && decide (b.Valid i) }

def store (b : Buffer α) (i : Int) (x : α) : Buffer α :=
  { b.touch i with cells := if b.Valid i then Function.update b.cells i x else b.cells }

/-- One store after the other, upwards. -/
def storeList (b : Buffer α) (a : Int) : List α → Buffer α
  | [] => b
  | x :: xs => (b.store a x).storeList (a + 1) xs

/-- `n` elements of `b`, from `c` on, go to `d`, from `a` on, one after the other. -/
def copyTo (b d : Buffer α) (a c : Int) : Nat → Buffer α × Buffer α
  | 0 => (b, d)
  | n + 1 =>
    let (b, d) := copyTo b d a c n
    (b.touch (c + n), d.store (a + n) (b.cells (c + n)))

/-- The first cell that passes a test; without one the search runs out of the buffer. -/
def find (b : Buffer α) (test : α → Bool) : Option Nat :=
  (List.range b.size).find? fun i => test (b.cells i)

/-! ## Sizes -/

@[simp] theorem touch_size : (b.touch i).size = b.size := rfl
@[simp] theorem touch_cells : (b.touch i).cells = b.cells := rfl
@[simp] theorem store_size : (b.store i x).size = b.size := rfl

@[simp] theorem storeList_size : (b.storeList a xs).size = b.size := by
  induction xs generalizing b a with
  | nil => rfl
  | cons x xs ih => exact ih

@[simp] theorem copyTo_size :
    (b.copyTo d a c n).1.size = b.size ∧ (b.copyTo d a c n).2.size = d.size := by
  induction n with
  | zero => exact ⟨rfl, rfl⟩
  | succ n ih => exact ih

theorem valid_congr (h : b.size = b'.size) : b.Valid i ↔ b'.Valid i := by rw [Valid, Valid, h]

/-! ## Order of the stores -/

theorem store_comm {y : α} (ne : i ≠ j) : (b.store i x).store j y = (b.store j y).store i x := by
  have at_i : (b.store j y).Valid i ↔ b.Valid i := valid_congr rfl
  have at_j : (b.store i x).Valid j ↔ b.Valid j := valid_congr rfl
  rw [store, store.eq_def (b.store j y)]
  simp only [touch, at_i, at_j]
  by_cases hi : b.Valid i <;> by_cases hj : b.Valid j <;>
    simp [store, touch, hi, hj, Function.update_comm ne]

theorem storeList_append :
    b.storeList a (xs ++ ys) = (b.storeList a xs).storeList (a + xs.length) ys := by
  induction xs generalizing b a with
  | nil => simp [storeList]
  | cons x xs ih =>
    have length : a + 1 + xs.length = a + (x :: xs).length := by simp; omega
    rw [List.cons_append, storeList, ih, length, storeList]

theorem storeList_store (away : i < a ∨ a + xs.length ≤ i) :
    (b.store i x).storeList a xs = (b.storeList a xs).store i x := by
  induction xs generalizing b a with
  | nil => rfl
  | cons y xs ih =>
    simp only [List.length_cons, Nat.cast_add, Nat.cast_one] at away
    rw [storeList, store_comm (by omega), ih (by omega), storeList]

theorem storeList_comm (away : a + xs.length ≤ c) :
    (b.storeList c ys).storeList a xs = (b.storeList a xs).storeList c ys := by
  induction ys generalizing b c with
  | nil => rfl
  | cons y ys ih => rw [storeList, ih (by omega), storeList_store (by omega), storeList]

/-! ## Accesses -/

@[simp] theorem touch_inside : (b.touch i).inside = true ↔ b.inside = true ∧ b.Valid i := by
  simp [touch]

@[simp] theorem store_inside : (b.store i x).inside = true ↔ b.inside = true ∧ b.Valid i :=
  touch_inside

theorem store_valid_next {k : Nat} :
    (b.store a x).Valid (a + 1 + k) ↔ b.Valid (a + (k + 1 : Nat)) := by
  rw [Nat.cast_add, Nat.cast_one, add_assoc, add_comm 1]
  exact valid_congr rfl

theorem storeList_inside : (b.storeList a xs).inside = true ↔
    b.inside = true ∧ ∀ k < xs.length, b.Valid (a + (k : Nat)) := by
  induction xs generalizing b a with
  | nil => simp [storeList]
  | cons x xs ih =>
    have next (k : Nat) : (b.store a x).Valid (a + 1 + k) ↔ b.Valid (a + (k + 1 : Nat)) :=
      store_valid_next
    rw [storeList, ih, store_inside, and_assoc]
    refine and_congr_right fun _ => ⟨?_, fun all => ⟨?_, fun k hk => ?_⟩⟩
    · rintro ⟨first, rest⟩ k hk
      cases k with
      | zero => simpa using first
      | succ k => exact (next k).1 (rest k (by simpa using hk))
    · simpa using all 0 (by simp)
    · exact (next k).2 (all (k + 1) (by simpa using hk))

theorem copyTo_inside : ((b.copyTo d a c n).1.inside = true ↔
      b.inside = true ∧ ∀ k < n, b.Valid (c + (k : Nat))) ∧
    ((b.copyTo d a c n).2.inside = true ↔ d.inside = true ∧ ∀ k < n, d.Valid (a + (k : Nat))) := by
  induction n with
  | zero => simp [copyTo]
  | succ n ih =>
    have sizes := @copyTo_size _ b d a c n
    simp only [copyTo, touch_inside, store_inside, ih, valid_congr sizes.1, valid_congr sizes.2,
      Nat.forall_lt_succ_right, and_assoc, and_self]

/-! ## Cells -/

theorem store_cells : (b.store i x).cells j = if j = i ∧ b.Valid i then x else b.cells j := by
  unfold store
  by_cases valid : b.Valid i
  · simp [valid, Function.update_apply]
  · simp [valid]

theorem copyTo_cells : (b.copyTo d a c n).1.cells = b.cells ∧ ∀ j, (b.copyTo d a c n).2.cells j =
    if a ≤ j ∧ j < a + n ∧ d.Valid j then b.cells (c + (j - a)) else d.cells j := by
  induction n with
  | zero => exact ⟨rfl, fun j => (if_neg (by omega)).symm⟩
  | succ n ih =>
    refine ⟨ih.1, fun j => ?_⟩
    have sizes := @copyTo_size _ b d a c n
    simp only [copyTo, store_cells, ih.2, valid_congr sizes.2, ih.1]
    by_cases last : j = a + n
    · subst last
      have bounds : (a ≤ a + n ∧ a + n < a + (n + 1 : Nat) ∧ d.Valid (a + n)) ↔ d.Valid (a + n) :=
        ⟨fun h => h.2.2, fun h => ⟨by omega, by omega, h⟩⟩
      simp only [bounds, true_and, add_sub_cancel_left, Int.lt_irrefl, false_and, and_false,
        if_false]
    · have : j < a + n ↔ j < a + (n + 1 : Nat) := by omega
      simp [last, this]

/-- From `a` on the cells hold `xs`. -/
def Holds (b : Buffer α) (a : Int) (xs : List α) : Prop :=
  ∀ k x, xs[k]? = some x → b.cells (a + (k : Nat)) = x

theorem holds_cons : b.Holds a (x :: xs) ↔ b.cells a = x ∧ b.Holds (a + 1) xs := by
  have next (k : Nat) : a + 1 + k = a + (k + 1 : Nat) := by omega
  constructor
  · intro holds
    refine ⟨by simpa using holds 0 x rfl, fun k y at_k => ?_⟩
    rw [next]
    exact holds (k + 1) y at_k
  · rintro ⟨first, rest⟩ k y at_k
    cases k with
    | zero => simpa [first] using at_k
    | succ k =>
      rw [← next]
      exact rest k y at_k

theorem holds_append : b.Holds a (xs ++ ys) ↔ b.Holds a xs ∧ b.Holds (a + xs.length) ys := by
  induction xs generalizing a with
  | nil => simp [Holds]
  | cons x xs ih =>
    have length : a + 1 + xs.length = a + (x :: xs).length := by simp; omega
    rw [List.cons_append, holds_cons, ih, holds_cons, and_assoc, length]

/-- The cells of one place have the contents of another. -/
theorem Holds.moved (holds : b.Holds c xs)
    (same : ∀ j, a ≤ j → j < a + xs.length → b'.cells j = b.cells (j - a + c)) : b'.Holds a xs := by
  intro k x at_k
  have := (List.getElem?_eq_some_iff.1 at_k).1
  rw [same _ (by omega) (by omega), add_sub_cancel_left, add_comm]
  exact holds k x at_k

theorem storeList_frame (away : j < a ∨ a + xs.length ≤ j) :
    (b.storeList a xs).cells j = b.cells j := by
  induction xs generalizing b a with
  | nil => rfl
  | cons x xs ih =>
    simp only [List.length_cons, Nat.cast_add, Nat.cast_one] at away
    rw [storeList, ih (by omega), store_cells, if_neg (by omega)]

theorem storeList_at {k : Nat} (at_k : xs[k]? = some x) (valid : b.Valid (a + k)) :
    (b.storeList a xs).cells (a + k) = x := by
  induction xs generalizing b a k with
  | nil => simp at at_k
  | cons y xs ih =>
    rw [storeList]
    cases k with
    | zero =>
      rw [storeList_frame (by omega), store_cells, if_pos ⟨by simp, by simpa using valid⟩]
      simpa using at_k
    | succ k =>
      have := ih at_k ((@store_valid_next _ _ _ y _).2 valid)
      rwa [Nat.cast_add, Nat.cast_one, add_comm (k : Int), ← add_assoc]

theorem storeList_holds (valid : ∀ k < xs.length, b.Valid (a + (k : Nat))) :
    (b.storeList a xs).Holds a xs := fun k _ at_k =>
  storeList_at at_k (valid k (List.getElem?_eq_some_iff.1 at_k).1)

/-! ## Terminated texts -/

/-- The buffer holds `xs` and right after it the terminator, which `xs` has not. -/
structure Text [Zero α] (b : Buffer α) (xs : List α) : Prop where
  length_lt : xs.length < b.size
  holds : b.Holds 0 (xs ++ [0])
  zero_notMem : 0 ∉ xs

/-- The search for the terminator. -/
def scan [Zero α] [DecidableEq α] (b : Buffer α) : Option Nat := b.find (· = 0)

variable [Zero α] [DecidableEq α]

theorem scan_eq_some : b.scan = some n ↔
    n < b.size ∧ b.cells n = 0 ∧ ∀ k < n, b.cells (k : Nat) ≠ 0 := by
  simp [scan, find, List.find?_range_eq_some]
  tauto

theorem Text.scan (text : b.Text xs) : b.scan = some xs.length := by
  obtain ⟨elements, terminator⟩ := holds_append.1 text.holds
  refine scan_eq_some.2 ⟨text.length_lt, ?_, fun k hk zero => text.zero_notMem ?_⟩
  · simpa using terminator 0 0 rfl
  · have := elements k xs[k] (List.getElem?_eq_getElem hk)
    rw [zero_add, zero] at this
    rw [this]
    exact List.getElem_mem hk

theorem Text.terminated (text : b.Text xs) : b.cells xs.length = 0 := (scan_eq_some.1 text.scan).2.1

end Buffer
