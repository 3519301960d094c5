import Mathlib.Tactic.TypeStar

/-!
# Reachable states of a labelled transition system

`Reachable ok` collects the states a system reaches by steps that all meet the condition `ok`; the
condition sees the state before the step and its label.
-/

namespace Transition

/-- A labelled transition system. -/
structure LTS (σ ℓ : Type*) where
  init : σ → Prop
  step : σ → ℓ → σ → Prop

variable {σ ℓ : Type*} {sys : LTS σ ℓ} {ok : σ → ℓ → Prop} {P : σ → Prop}

inductive Reachable (sys : LTS σ ℓ) (ok : σ → ℓ → Prop) : σ → Prop
  | init {s : σ} : sys.init s → Reachable sys ok s
  | step {s t : σ} {l : ℓ} : Reachable sys ok s → ok s l → sys.step s l t → Reachable sys ok t

/-- What holds at the start and is kept by every step that meets the condition holds in every
reachable state. -/
theorem Reachable.invariant (start : ∀ s, sys.init s → P s)
    (keep : ∀ s l t, P s → ok s l → sys.step s l t → P t) {s : σ} (h : Reachable sys ok s) :
    P s := by
  induction h with
  | init h => exact start _ h
  | step _ hok hs ih => exact keep _ _ _ ih hok hs

/-- The steps of a run, in order: from `s`, with the labels `ls`, to `t`. -/
inductive Run (sys : LTS σ ℓ) : σ → List ℓ → σ → Prop
  | nil (s : σ) : Run sys s [] s
  | cons {s t u : σ} {l : ℓ} {ls : List ℓ} :
      sys.step s l t → Run sys t ls u → Run sys s (l :: ls) u

theorem Run.append {s t u : σ} {ls ls' : List ℓ} (h : Run sys s ls t) (g : Run sys t ls' u) :
    Run sys s (ls ++ ls') u := by
  induction h with
  | nil => exact g
  | cons hstep _ ih => exact .cons hstep (ih g)

/-- A run keeps what each of its steps keeps. -/
theorem Run.invariant (keep : ∀ s l t, P s → sys.step s l t → P t) {s t : σ} {ls : List ℓ}
    (h : Run sys s ls t) (hs : P s) : P t := by
  induction h with
  | nil => exact hs
  | cons hstep _ ih => exact ih (keep _ _ _ hs hstep)

/-- A sequence whose rank goes down at every step but those to a goal reaches one within the rank of
its start. -/
theorem exists_of_rank (rank : σ → Nat) (goal : σ → Prop) (c : Nat → σ)
    (down : ∀ k, goal (c (k + 1)) ∨ rank (c (k + 1)) < rank (c k)) :
    ∃ k, 1 ≤ k ∧ k ≤ rank (c 0) + 1 ∧ goal (c k) := by
  induction h : rank (c 0) using Nat.strongRecOn generalizing c with
  | ind n ih =>
    rcases down 0 with now | lt
    · exact ⟨1, Nat.le_refl 1, by omega, now⟩
    · have lower : rank (c 1) < n := h ▸ lt
      obtain ⟨k, first, last, reached⟩ :=
        ih (rank (c 1)) lower (fun k => c (k + 1)) (fun k => down (k + 1)) rfl
      exact ⟨k + 1, by omega, by omega, reached⟩

end Transition
