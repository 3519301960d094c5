import ChudOS.ContextSwitch

/-!
# Round robin

The scheduler goes upwards through the task table and starts again from slot 0, so it cannot pass a
task that is ready. How far a task is from its turn is a number that every switch makes smaller,
whatever happens to the other tasks between two switches.
-/

namespace ChudOS

variable {k : Kernel} {cur p : Nat}

/-- The slots after `cur` up to the next turn of `p`, without `p` itself. -/
def turnsBefore (p cur : Nat) : Nat := if cur < p then p - cur - 1 else 511 - cur + p

theorem findNextTask_lt (k : Kernel) (cur : Nat) : findNextTask k cur < 512 := by
  unfold findNextTask
  split
  · decide
  · cases found : (List.range 512).find? fun i =>
        decide (cur < i) && (k.taskManager i).exist && (k.taskManager i).processState == .ready with
    | none => decide
    | some n => exact List.mem_range.mp (List.mem_of_find?_eq_some found)

/-- The scheduler does not pass a ready task. -/
theorem findNextTask_le (hp : p ≤ 511) (exist : (k.taskManager p).exist = true)
    (ready : (k.taskManager p).processState = .ready) (lt : cur < p) :
    cur < findNextTask k cur ∧ findNextTask k cur ≤ p := by
  have candidate : (decide (cur < p) && (k.taskManager p).exist &&
      (k.taskManager p).processState == .ready) = true := by simp [lt, exist, ready]
  rw [findNextTask, if_neg (by omega)]
  cases found : (List.range 512).find? fun i =>
      decide (cur < i) && (k.taskManager i).exist && (k.taskManager i).processState == .ready with
  | none =>
    have none := List.find?_range_eq_none.mp found p (by omega)
    rw [candidate] at none
    cases none
  | some n =>
    obtain ⟨picked, -, below⟩ := List.find?_range_eq_some.mp found
    simp only [Bool.and_eq_true, decide_eq_true_eq] at picked
    refine ⟨picked.1.1, ?_⟩
    by_contra passed
    have skipped := below p (by simpa using passed)
    rw [candidate] at skipped
    cases skipped

theorem turnsBefore_findNextTask (hp : p ≤ 511) (exist : (k.taskManager p).exist = true)
    (ready : (k.taskManager p).processState = .ready) :
    findNextTask k cur = p ∨ turnsBefore p (findNextTask k cur) < turnsBefore p cur := by
  unfold turnsBefore
  rcases Nat.lt_or_ge cur p with lt | ge
  · have := findNextTask_le hp exist ready lt
    split_ifs <;> omega
  · have := findNextTask_lt k cur
    rcases findNextTask_spec k cur with zero | ⟨above, -⟩
    · split_ifs <;> omega
    · split_ifs <;> omega

/-- A task that is ready at every switch gets its turn within 512 switches. -/
theorem ready_task_scheduled {t : Nat → Kernel} {c : Nat → Nat}
    (switch : ∀ k, c (k + 1) = findNextTask (t k) (c k)) (pos : 1 ≤ p) (hp : p ≤ 511)
    (ready : ∀ k, ((t k).taskManager p).exist = true ∧
      ((t k).taskManager p).processState = .ready) :
    ∃ k, 1 ≤ k ∧ k ≤ 512 ∧ c k = p := by
  obtain ⟨k, first, last, turn⟩ := Transition.exists_of_rank (turnsBefore p) (· = p) c fun k => by
    rw [switch k]
    exact turnsBefore_findNextTask hp (ready k).1 (ready k).2
  refine ⟨k, first, ?_, turn⟩
  have : turnsBefore p (c 0) ≤ 511 := by
    unfold turnsBefore
    split_ifs <;> omega
  omega

/-- The table at a switch: the task 300 is ready, and with it every other one of the tasks before and
after it, in turns. -/
def crowd (k : Nat) : Kernel :=
  { idleKernel with
    taskManager := fun p => { shellTask with
      processState := if p = 300 ∨ (p + k) % 2 = 0 then .ready else .waiting } }

/-- The PIDs that the switches go through. -/
def turns : Nat → Nat
  | 0 => 0
  | k + 1 => findNextTask (crowd k) (turns k)

theorem crowd_scheduled : ∃ k, 1 ≤ k ∧ k ≤ 512 ∧ turns k = 300 :=
  ready_task_scheduled (t := crowd) (fun _ => rfl) (by decide) (by decide) fun k =>
    ⟨rfl, (if_pos (.inl rfl) : (if 300 = 300 ∨ (300 + k) % 2 = 0 then ProcessState.ready
      else .waiting) = .ready)⟩

end ChudOS
