/-!
# Outcomes of calls that may stop

`Ends stop post call` is the contract of a call that either returns a value with `post` or stops for
one of the reasons `stop`. With few reasons allowed it is total correctness, with all of them it is
partial correctness.

`Follows e call call'` says that `call'` does what `call` does, unless `call` stops for the reason
`e`.
-/

namespace Outcome

universe u v

variable {ε : Type u} {α β : Type v}

def Ends (stop : ε → Prop) (post : α → Prop) : Except ε α → Prop
  | .ok a => post a
  | .error e => stop e

def Follows (e : ε) (call call' : Except ε α) : Prop := call ≠ .error e → call' = call

variable {stop stop' : ε → Prop} {post post' : α → Prop} {call call' : Except ε α} {a : α} {e : ε}

@[simp] theorem ends_ok : Ends stop post (.ok a) ↔ post a := Iff.rfl

@[simp] theorem ends_error : Ends stop post (.error e) ↔ stop e := Iff.rfl

@[simp] theorem ends_pure : Ends stop post (pure a) ↔ post a := Iff.rfl

theorem Ends.mono (h : Ends stop post call) (hstop : ∀ e, stop e → stop' e)
    (hpost : ∀ a, post a → post' a) : Ends stop' post' call := by
  cases call with
  | ok a => exact hpost a h
  | error e => exact hstop e h

theorem Ends.imp (h : Ends stop post call) (hpost : ∀ a, post a → post' a) :
    Ends stop post' call := h.mono (fun _ => id) hpost

theorem Ends.bind {post' : β → Prop} {next : α → Except ε β} (h : Ends stop post call)
    (hnext : ∀ a, post a → Ends stop post' (next a)) : Ends stop post' (call >>= next) := by
  cases call with
  | ok a => exact hnext a h
  | error e => exact h

/-- A call that does not stop for one of its reasons returns. -/
theorem Ends.ok_of_ne (h : Ends stop post call) (never : ∀ e, stop e → call ≠ .error e) :
    ∃ a, call = .ok a ∧ post a := by
  cases call with
  | ok a => exact ⟨a, rfl, h⟩
  | error e => exact absurd rfl (never e h)

theorem Ends.ok_of (h : Ends stop post call) (never : ∀ e, ¬ stop e) :
    ∃ a, call = .ok a ∧ post a := h.ok_of_ne fun e he => absurd he (never e)

/-- A loop over a list keeps what each round keeps. -/
theorem Ends.foldlM {inv : α → Prop} {round : α → β → Except ε α} {l : List β}
    (keep : ∀ a, ∀ x ∈ l, inv a → Ends stop inv (round a x)) (start : inv a) :
    Ends stop inv (l.foldlM round a) := by
  induction l generalizing a with
  | nil => exact start
  | cons x l ih =>
    rw [List.foldlM_cons]
    exact Ends.bind (keep a x (by simp) start) fun b hb =>
      ih (fun c y hy => keep c y (by simp [hy])) hb

theorem bind_eq_ok {next : α → Except ε β} {b : β} :
    (call >>= next) = .ok b ↔ ∃ a, call = .ok a ∧ next a = .ok b := by
  cases call with
  | ok a => exact ⟨fun h => ⟨a, rfl, h⟩, fun ⟨_, eq, h⟩ => by cases eq; exact h⟩
  | error e => exact ⟨nofun, nofun⟩

@[simp] theorem ok_bind {next : α → Except ε β} : (Except.ok a >>= next) = next a := rfl

theorem Follows.refl (call : Except ε α) : Follows e call call := fun _ => rfl

theorem Follows.ok (h : Follows e call call') (eq : call = .ok a) : call' = .ok a :=
  (h (by rw [eq]; nofun)).trans eq

theorem Follows.bind {next next' : α → Except ε β} (h : Follows e call call')
    (hnext : ∀ a, Follows e (next a) (next' a)) : Follows e (call >>= next) (call' >>= next') := by
  intro ne
  cases call with
  | ok a => rw [h nofun]; exact hnext a ne
  | error c => rw [h fun eq => ne (by cases eq; rfl)]; rfl

end Outcome
