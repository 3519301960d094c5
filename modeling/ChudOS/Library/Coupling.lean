import Mathlib.Order.Basic

/-!
# Two runs side by side

`Coupled x rel call call'` is the contract of two calls that both return, with values related by
`rel`, or both stop for the same reason. The relation is indexed by what the two runs are known to
share, which only grows: a relation at `x` after some calls is one at a `y` above `x`.
-/

namespace Coupling

universe u v w

variable {ε : Type u} {α β γ δ : Type v} {X : Type w} [Preorder X]

def Coupled (x : X) (rel : X → α → β → Prop) : Except ε α → Except ε β → Prop
  | .ok a, .ok b => ∃ y, x ≤ y ∧ rel y a b
  | .error e, .error e' => e = e'
  | _, _ => False

variable {x y : X} {rel rel' : X → α → β → Prop} {call : Except ε α} {call' : Except ε β} {a : α}
  {b : β} {e : ε}

@[simp] theorem coupled_ok : Coupled x rel (.ok a : Except ε α) (.ok b) ↔ ∃ y, x ≤ y ∧ rel y a b :=
  Iff.rfl

@[simp] theorem coupled_error : Coupled x rel (.error e) (.error e) := rfl

theorem Coupled.return (h : rel x a b) : Coupled x rel (.ok a : Except ε α) (.ok b) :=
  ⟨x, le_refl x, h⟩

theorem Coupled.imp (h : Coupled x rel call call')
    (himp : ∀ y a b, x ≤ y → rel y a b → rel' y a b) : Coupled x rel' call call' := by
  rcases call with e | a <;> rcases call' with e' | b
  · exact h
  · exact h
  · exact h
  · obtain ⟨y, le, hy⟩ := h
    exact ⟨y, le, himp y a b le hy⟩

theorem Coupled.mono (h : Coupled y rel call call') (le : x ≤ y) : Coupled x rel call call' := by
  rcases call with e | a <;> rcases call' with e' | b
  · exact h
  · exact h
  · exact h
  · obtain ⟨z, le', hz⟩ := h
    exact ⟨z, le.trans le', hz⟩

theorem Coupled.bind {rel' : X → γ → δ → Prop} {next : α → Except ε γ} {next' : β → Except ε δ}
    (h : Coupled x rel call call')
    (hnext : ∀ y a b, x ≤ y → rel y a b → Coupled y rel' (next a) (next' b)) :
    Coupled x rel' (call >>= next) (call' >>= next') := by
  rcases call with e | a <;> rcases call' with e' | b
  · exact h
  · exact absurd h id
  · exact absurd h id
  · obtain ⟨y, le, hy⟩ := h
    exact (hnext y a b le hy).mono le

/-- A call that depends on neither run is the same in both. -/
theorem Coupled.same {rel : X → γ → δ → Prop} {next : α → Except ε γ} {next' : α → Except ε δ}
    (call : Except ε α) (hnext : ∀ a, Coupled x rel (next a) (next' a)) :
    Coupled x rel (call >>= next) (call >>= next') := by
  rcases call with e | a
  · rfl
  · exact hnext a

/-- When one call returns, so does the other. -/
theorem Coupled.exists_ok (h : Coupled x rel call call') (eq : call = .ok a) :
    ∃ y b, x ≤ y ∧ call' = .ok b ∧ rel y a b := by
  subst eq
  rcases call' with e' | b
  · exact absurd h id
  · obtain ⟨y, le, hy⟩ := h
    exact ⟨y, b, le, rfl, hy⟩

/-- What is seen of related values is the same after both calls. -/
theorem Coupled.map_eq {f : α → γ} {g : β → γ} (h : Coupled x rel call call')
    (hfg : ∀ y a b, rel y a b → f a = g b) : call.map f = call'.map g := by
  rcases call with e | a <;> rcases call' with e' | b
  · exact congrArg Except.error h
  · exact absurd h id
  · exact absurd h id
  · obtain ⟨y, -, hy⟩ := h
    exact congrArg Except.ok (hfg y a b hy)

/-- A loop over a list keeps what each round keeps. -/
theorem Coupled.foldlM {rel : X → α → β → Prop} {round : α → γ → Except ε α}
    {round' : β → γ → Except ε β} {l : List γ}
    (keep : ∀ y a b, ∀ c ∈ l, rel y a b → Coupled y rel (round a c) (round' b c))
    (start : rel x a b) : Coupled x rel (l.foldlM round a) (l.foldlM round' b) := by
  induction l generalizing x a b with
  | nil => exact .return start
  | cons c l ih =>
    rw [List.foldlM_cons, List.foldlM_cons]
    exact (keep x a b c (by simp) start).bind fun y a b _ h =>
      ih (fun z a b d hd => keep z a b d (by simp [hd])) h

end Coupling
