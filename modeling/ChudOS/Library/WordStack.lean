import Mathlib.Algebra.Group.Basic
import Mathlib.Logic.Function.Basic
import Mathlib.Tactic.Abel
import Mathlib.Tactic.Common

/-!
# Stacks in a memory of words

A stack that grows downwards. `Holds` lists its words from the top; they are `step` apart.
-/

namespace WordStack

variable {A α : Type*} [AddCommGroup A] (step : A)

/-- The words from an address upwards. -/
def Holds (mem : A → α) : A → List α → Prop
  | _, [] => True
  | a, x :: l => mem a = x ∧ Holds mem (a + step) l

/-- The places of `n + 1` words are different. -/
def Spread (n : Nat) : Prop := ∀ i, 0 < i → i ≤ n → i • step ≠ 0

variable {step} {mem mem' : A → α} {a b : A} {x : α} {l r : List α} {m n : Nat}

@[simp] theorem holds_nil : Holds step mem a [] := trivial

@[simp] theorem holds_cons : Holds step mem a (x :: l) ↔ mem a = x ∧ Holds step mem (a + step) l :=
  Iff.rfl

theorem holds_append :
    Holds step mem a (l ++ r) ↔ Holds step mem a l ∧ Holds step mem (a + l.length • step) r := by
  induction l generalizing a with
  | nil => simp
  | cons x l ih =>
    rw [List.cons_append, holds_cons, ih, holds_cons, and_assoc, List.length_cons, succ_nsmul',
      add_assoc]

theorem Holds.congr (h : Holds step mem a l)
    (agree : ∀ i < l.length, mem' (a + i • step) = mem (a + i • step)) : Holds step mem' a l := by
  induction l generalizing a with
  | nil => trivial
  | cons x l ih =>
    have first := agree 0 (by simp)
    rw [zero_nsmul, add_zero] at first
    refine ⟨first.trans h.1, ih h.2 fun i lt => ?_⟩
    have later := agree (i + 1) (by simpa using lt)
    rwa [succ_nsmul', ← add_assoc] at later

theorem Spread.mono (h : Spread step n) (le : m ≤ n) : Spread step m := fun i pos bound =>
  h i pos (Nat.le_trans bound le)

/-- A push changes no word that is on the stack. -/
theorem Holds.push [DecidableEq A] (h : Holds step mem a l) (spread : Spread step l.length)
    (x : α) : Holds step (Function.update mem (a - step) x) (a - step) (x :: l) := by
  refine ⟨Function.update_self .., ?_⟩
  rw [sub_add_cancel]
  refine h.congr fun i lt => Function.update_of_ne (fun same => ?_) ..
  refine spread (i + 1) i.succ_pos lt ?_
  rw [succ_nsmul', ← sub_eq_zero.mpr same]
  abel

end WordStack
