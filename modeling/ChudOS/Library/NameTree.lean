import Mathlib.Data.List.Induction
import Mathlib.Tactic.TypeStar

/-!
# Trees of names

The nodes of a tree are numbered in the order of their creation, from the root 0 on. Every other node
has a name and a parent that was there before it. A path of names is followed from a node by a
function that gives the child with a name.

## Main definitions

* `resolve` — the node that a path leads to.
* `child` — the first child with a name.
* `PathTo` — the names on the way from the root to a node.
-/

namespace NameTree

variable {ν : Type*}

/-- The node at the end of a path, where `step` gives the child with a name. -/
def resolve (step : Nat → ν → Option Nat) (d : Nat) : List ν → Option Nat
  | [] => some d
  | x :: p => (step d x).bind fun k => resolve step k p

variable {step step' : Nat → ν → Option Nat} {d k u : Nat} {x : ν} {p q : List ν}

@[simp] theorem resolve_nil : resolve step d [] = some d := rfl

theorem resolve_append : resolve step d (p ++ q) = (resolve step d p).bind (resolve step · q) := by
  induction p generalizing d with
  | nil => rfl
  | cons x p ih =>
    rw [List.cons_append, resolve, resolve, Option.bind_assoc]
    exact congrArg _ (funext fun k => ih)

theorem resolve_concat : resolve step d (p ++ [x]) = (resolve step d p).bind (step · x) := by
  rw [resolve_append]
  refine congrArg _ (funext fun k => ?_)
  rw [resolve]
  cases step k x <;> rfl

/-- A path that leads to a node still does where every step does. -/
theorem resolve_mono (more : ∀ k x j, step k x = some j → step' k x = some j)
    (found : resolve step d p = some k) : resolve step' d p = some k := by
  induction p generalizing d with
  | nil => exact found
  | cons x p ih =>
    obtain ⟨j, first, rest⟩ := Option.bind_eq_some_iff.mp found
    rw [resolve, more d x j first]
    exact ih rest

/-! ## Parents and names -/

section Nodes

variable [DecidableEq ν] (parent : Nat → Nat) (name : Nat → ν)

/-- The first of the nodes up to `u` with a parent and a name. -/
def child (u d : Nat) (x : ν) : Option Nat :=
  (List.range' 1 u).find? fun k => parent k = d ∧ name k = x

/-- The names on the way from the root to a node. -/
inductive PathTo : Nat → List ν → Prop
  | root : PathTo 0 []
  | child {k : Nat} {p : List ν} : 0 < k → PathTo (parent k) p → PathTo k (p ++ [name k])

/-- No two nodes of one parent have one name. -/
def Distinct (u : Nat) : Prop :=
  ∀ j k, 0 < j → j ≤ u → 0 < k → k ≤ u → parent j = parent k → name j = name k → j = k

variable {parent name}

theorem child_some (found : child parent name u d x = some k) :
    0 < k ∧ k ≤ u ∧ parent k = d ∧ name k = x := by
  rw [child] at found
  have range := List.mem_range'_1.mp (List.mem_of_find?_eq_some found)
  have here := List.find?_some found
  simp only [decide_eq_true_eq] at here
  exact ⟨by omega, by omega, here⟩

theorem child_of_distinct (distinct : Distinct parent name u) (pos : 0 < k) (le : k ≤ u) :
    child parent name u (parent k) (name k) = some k := by
  cases found : child parent name u (parent k) (name k) with
  | none =>
    have missed := List.find?_eq_none.mp found k (List.mem_range'_1.mpr (by omega))
    simp at missed
  | some j =>
    obtain ⟨pos', le', same, called⟩ := child_some found
    rw [distinct j k pos' le' pos le same called]

/-- Every node is found at its path. -/
theorem resolve_pathTo (distinct : Distinct parent name u)
    (older : ∀ k, 0 < k → k ≤ u → parent k < k) (le : k ≤ u) (path : PathTo parent name k p) :
    resolve (child parent name u) 0 p = some k := by
  induction path with
  | root => rfl
  | @child k p pos _ ih =>
    have before := older k pos le
    rw [resolve_concat, ih (by omega), Option.bind_some, child_of_distinct distinct pos le]

end Nodes

end NameTree
