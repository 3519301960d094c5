import ChudOS.Library.RadixTree

/-!
# Typed memories of tables

A typing gives some tables a kind. A scheme says of which kind the table is that a word of a table
points at, and what else the word has to fulfil; the words of a kind without children are data. A
memory stays well typed when a word is replaced by one that fits, when data changes, and when a
fresh table gets a kind.

## Main definitions

* `Scheme` — the kinds of tables and what their words may be.
* `WellTyped` — every word of a table with a kind fits.
* `KeepsKinds` — no table loses its kind.
-/

namespace TypedMemory

variable {ι α κ : Type*}

structure Scheme (ι α κ : Type*) where
  link : α → Option Nat
  child : κ → ι → Option κ
  guard : κ → ι → α → Prop

/-- The word `x` may stand at the index `i` of a table of kind `k`. -/
def Scheme.Fits (S : Scheme ι α κ) (θ : Nat → Option κ) (k : κ) (i : ι) (x : α) : Prop :=
  ∀ c, S.child k i = some c → S.guard k i x ∧ ∀ t, S.link x = some t → θ t = some c

def Scheme.WellTyped (S : Scheme ι α κ) (θ : Nat → Option κ) (mem : Nat → ι → α) : Prop :=
  ∀ t k, θ t = some k → ∀ i, S.Fits θ k i (mem t i)

/-- Every table keeps its kind. -/
def KeepsKinds (θ θ' : Nat → Option κ) : Prop := ∀ t k, θ t = some k → θ' t = some k

variable {S : Scheme ι α κ} {θ θ' θ'' : Nat → Option κ} {mem mem' : Nat → ι → α} {t n : Nat}
  {k c : κ} {i : ι} {x : α}

namespace KeepsKinds

theorem refl : KeepsKinds θ θ := fun _ _ h => h

theorem trans (h : KeepsKinds θ θ') (g : KeepsKinds θ' θ'') : KeepsKinds θ θ'' :=
  fun t k ht => g t k (h t k ht)

/-- A table without a kind gets one. -/
theorem update (fresh : θ n = none) (k : κ) : KeepsKinds θ (Function.update θ n (some k)) := by
  intro t k' ht
  rw [Function.update_of_ne]
  · exact ht
  · rintro rfl
    rw [fresh] at ht
    cases ht

end KeepsKinds

theorem Scheme.Fits.mono (h : S.Fits θ k i x) (ext : KeepsKinds θ θ') : S.Fits θ' k i x :=
  fun c hc => ⟨(h c hc).1, fun t ht => ext t c ((h c hc).2 t ht)⟩

/-- A word that points nowhere. -/
theorem Scheme.Fits.of_none (guard : S.guard k i x) (none : S.link x = none) : S.Fits θ k i x := by
  refine fun c _ => ⟨guard, fun t ht => ?_⟩
  rw [none] at ht
  cases ht

namespace Scheme.WellTyped

/-- Where a word of a table with a kind points. -/
theorem link (h : S.WellTyped θ mem) (ht : θ t = some k) (hc : S.child k i = some c)
    (hn : S.link (mem t i) = some n) : θ n = some c :=
  (h t k ht i c hc).2 n hn

theorem guard (h : S.WellTyped θ mem) (ht : θ t = some k) (hc : S.child k i = some c) :
    S.guard k i (mem t i) :=
  (h t k ht i c hc).1

/-- The tables with a kind are all that matters. -/
theorem of_same (h : S.WellTyped θ mem) (same : ∀ t k, θ t = some k → mem' t = mem t) :
    S.WellTyped θ mem' := by
  intro t k ht i
  rw [same t k ht]
  exact h t k ht i

/-- Words that fit may be replaced. -/
theorem of_fits (h : S.WellTyped θ mem)
    (fits : ∀ t k, θ t = some k → ∀ i, mem' t i = mem t i ∨ S.Fits θ k i (mem' t i)) :
    S.WellTyped θ mem' := by
  intro t k ht i
  rcases fits t k ht i with same | fit
  · rw [same]
    exact h t k ht i
  · exact fit

/-- A fresh table with words that fit gets a kind. -/
theorem add (h : S.WellTyped θ mem) (fresh : θ n = none) (same : ∀ t ≠ n, mem' t = mem t)
    (fits : ∀ i, S.Fits (Function.update θ n (some k)) k i (mem' n i)) :
    S.WellTyped (Function.update θ n (some k)) mem' := by
  have ext := KeepsKinds.update fresh k
  intro t k' ht i
  by_cases new : t = n
  · subst new
    rw [Function.update_self] at ht
    cases ht
    exact fits i
  · rw [Function.update_of_ne new] at ht
    rw [same t new]
    exact (h t k' ht i).mono ext

variable [DecidableEq ι]

theorem write (h : S.WellTyped θ mem) (fits : ∀ k, θ t = some k → S.Fits θ k i x) :
    S.WellTyped θ (RadixTree.write mem t i x) := by
  refine h.of_fits fun u k hu j => ?_
  by_cases here : u = t ∧ j = i
  · obtain ⟨rfl, rfl⟩ := here
    rw [RadixTree.write_self]
    exact .inr (fits k hu)
  · exact .inl (RadixTree.write_of_ne here)

/-- A fresh table, empty, is installed behind a word. -/
theorem install (h : S.WellTyped θ mem) (fresh : θ n = none) (ht : θ t = some k)
    (hc : S.child k i = some c) (guard : S.guard k i x) (new : S.link x = some n)
    (empty : ∀ j, S.Fits (Function.update θ n (some c)) c j (mem n j)) :
    S.WellTyped (Function.update θ n (some c)) (RadixTree.write mem t i x) := by
  have ext := KeepsKinds.update fresh c
  refine (h.add fresh (fun _ _ => rfl) empty).write fun k' hk' => ?_
  rw [ext t k ht] at hk'
  cases hk'
  rintro c' hc'
  rw [hc] at hc'
  cases hc'
  refine ⟨guard, fun u hu => ?_⟩
  rw [new] at hu
  cases hu
  exact Function.update_self n _ θ

end Scheme.WellTyped

end TypedMemory
