import ChudOS.Devices.FloppyFifo
import Mathlib.Algebra.Group.Nat.Defs

/-!
# The handshake of the FIFO

When the parameter bytes of a command go to a controller that is ready for them.
-/

namespace ChudOS

variable {c : FifoClock} {timestamp : U64} {fuel n w : Nat} {last : Option FifoEvent}
  {bytes : List U8} {parameters : Option (List U8)}

/-! ## The statuses and ticks of a wait -/

/-- No tick has come between two accesses; some 2^64 of them would look like none. -/
def FifoClock.NoTick (c : FifoClock) (n m : Nat) : Prop :=
  (c.ticks m - c.ticks n) % 2 ^ 64 = 0 ∨ 2 ^ 64 - 1000 < (c.ticks m - c.ticks n) % 2 ^ 64

/-- The second status of round `j` after access `n`. -/
def FifoClock.statusAt (c : FifoClock) (n j : Nat) : U8 := c.status (n + 3 * j + 2)

/-- In round `j` after access `n` bit 0 of the second status is set, and no tick has come. -/
def FifoClock.Idle (c : FifoClock) (n j : Nat) : Prop :=
  (c.statusAt n j).getLsbD 0 = true ∧ c.NoTick n (n + 3 * j + 3)

/-- The access that follows round `j`, which reads the timer only when bit 0 is set. -/
def FifoClock.accessAfter (c : FifoClock) (n j : Nat) : Nat :=
  n + 3 * j + if (c.statusAt n j).getLsbD 0 then 4 else 3

/-- For each of `k` bytes, from access `n` on: where bit 0 is clear for the first time or the first
tick has come, RQM is 1 and DIO is 0, or with this tick 1000 have come at once. -/
def FifoClock.ReadyInTime (c : FifoClock) : Nat → Nat → Prop
  | 0, _ => True
  | k + 1, n => ∀ j, (∀ i < j, c.Idle n i) → ¬ c.Idle n j →
    ((c.statusAt n j).getLsbD 7 = true ∧ (c.statusAt n j).getLsbD 6 = false ∨
      1000 ≤ c.ticks (c.accessAfter n j) - c.ticks n) ∧
    c.ReadyInTime k (c.accessAfter n j + 1)

theorem canSend_iff (msr : U8) : CanSend msr ↔ msr.getLsbD 7 = true ∧ msr.getLsbD 6 = false := by
  rw [CanSend]
  revert msr
  decide

theorem and_one_eq_zero (msr : U8) : msr &&& 1 = 0 ↔ msr.getLsbD 0 = false := by
  revert msr
  decide

/-- The elapsed time is computed the wrong way round. -/
theorem timerWindow_sub_lt {m : Nat} (le : n ≤ m) :
    c.timerWindow n - c.timerWindow m < 1000 ↔ c.NoTick n m := by
  have mono := c.monotone n m le
  have cancel : c.timerWindow n - c.timerWindow m =
      BitVec.ofNat 64 (c.ticks n) - BitVec.ofNat 64 (c.ticks m) := by
    rw [FifoClock.timerWindow, FifoClock.timerWindow]
    grind
  rw [cancel, BitVec.lt_def, BitVec.toNat_sub, BitVec.toNat_ofNat, BitVec.toNat_ofNat,
    FifoClock.NoTick]
  change _ < 1000 ↔ _
  omega

theorem keepsWaiting_iff (j : Nat) :
    keepsWaiting c (c.timerWindow n) (n + 1 + 3 * j) = true ↔ c.Idle n j := by
  have second : n + 1 + 3 * j + 1 = n + 3 * j + 2 := by omega
  have timer : n + 1 + 3 * j + 2 = n + 3 * j + 3 := by omega
  have bit : (c.status (n + 3 * j + 2) &&& 1 != 0) = true ↔
      (c.status (n + 3 * j + 2)).getLsbD 0 = true := by
    rw [bne_iff_ne, ne_eq, and_one_eq_zero, Bool.not_eq_false]
  have first : c.status (n + 1 + 3 * j) &&& 0 = 0 := BitVec.and_zero
  rw [keepsWaiting, first, second, timer, FifoClock.Idle, FifoClock.statusAt,
    ← timerWindow_sub_lt (by omega), bne_self_eq_false, Bool.false_or, Bool.and_eq_true, bit,
    decide_eq_true_eq]

theorem lastPoll_iff (j : Nat) : LastPoll c (c.timerWindow n) (n + 1) j ↔
    (∀ i < j, c.Idle n i) ∧ ¬ c.Idle n j := by
  rw [LastPoll, ← Bool.not_eq_true, keepsWaiting_iff, and_comm]
  exact and_congr_left' (forall₂_congr fun i _ => keepsWaiting_iff i)

theorem afterPoll_eq (j : Nat) : afterPoll c (n + 1) j = c.accessAfter n j := by
  have second : n + 1 + 3 * j + 1 = n + 3 * j + 2 := by omega
  rw [afterPoll, FifoClock.accessAfter, FifoClock.statusAt, second]
  simp only [and_one_eq_zero]
  cases (c.status (n + 3 * j + 2)).getLsbD 0
  · rw [if_pos rfl, if_neg Bool.false_ne_true]
    omega
  · rw [if_neg (by decide), if_pos rfl]
    omega

/-! ## The accesses -/

theorem sendParameters_respected (ready : c.ReadyInTime bytes.length n) :
    Respected last (sendParameters c fuel bytes n) := by
  induction bytes generalizing n last with
  | nil => trivial
  | cons byte bytes ih =>
    rw [sendParameters]
    cases ended : (waitFifo c (c.timerWindow n) fuel (n + 1)).2 with
    | none =>
      have waits : waitFifo c (c.timerWindow n) fuel (n + 1) = (_, none) := Prod.ext rfl ended
      rw [waits]
      exact waitFifo_respected
    | some w =>
      obtain ⟨j, -, lastPoll, rfl, status⟩ := waitFifo_some ended
      have waits : waitFifo c (c.timerWindow n) fuel (n + 1) = (_, some _) := Prod.ext rfl ended
      obtain ⟨before, ends⟩ := (lastPoll_iff j).1 lastPoll
      obtain ⟨here, later⟩ := ready j before ends
      have second : n + 1 + 3 * j + 1 = n + 3 * j + 2 := by omega
      rw [waits]
      rw [← afterPoll_eq] at here later
      refine respected_append.2 ⟨waitFifo_respected, ?_, ih later⟩
      rw [status, second]
      exact here.imp_left fun can => ⟨_, rfl, (canSend_iff _).2 can⟩

theorem readyInTime_of_respected {N : Nat}
    (respected : ∀ fuel, N ≤ fuel → Respected last (sendParameters c fuel bytes n)) :
    c.ReadyInTime bytes.length n := by
  induction bytes generalizing n last N with
  | nil => trivial
  | cons byte bytes ih =>
    intro j before ends
    have lastPoll := (lastPoll_iff j).2 ⟨before, ends⟩
    have second : n + 1 + 3 * j + 1 = n + 3 * j + 2 := by omega
    rw [← afterPoll_eq]
    have sent fuel (enough : max N (j + 1) ≤ fuel) :
        Allowed (some (.status (c.statusAt n j)))
          (.parameter byte (c.ticks (afterPoll c (n + 1) j) - c.ticks n)) ∧
        Respected (some (.parameter byte (c.ticks (afterPoll c (n + 1) j) - c.ticks n)))
          (sendParameters c fuel bytes (afterPoll c (n + 1) j + 1)) := by
      have ended := @waitFifo_of_last c _ fuel _ j lastPoll (by omega)
      have waits : waitFifo c (c.timerWindow n) fuel (n + 1) = (_, some _) := Prod.ext rfl ended
      have all := respected fuel (by omega)
      obtain ⟨i, -, lastPoll', -, status⟩ := waitFifo_some ended
      rw [lastPoll_unique lastPoll' lastPoll, second] at status
      rw [sendParameters, waits] at all
      have rest := (respected_append.1 all).2
      rwa [status] at rest
    refine ⟨?_, ih fun fuel enough => (sent fuel enough).2⟩
    refine (sent _ (Nat.le_refl _)).1.imp_left ?_
    rintro ⟨msr, same, can⟩
    cases same
    exact (canSend_iff _).1 can

theorem canRead_iff (msr : U8) : CanRead msr ↔ msr >>> 7 &&& 1 ≠ 0 ∧ msr >>> 6 &&& 1 ≠ 0 := by
  rw [CanRead]
  revert msr
  decide

/-- The result is read after the right status only, and failure means a wrong one at the end. -/
theorem floppyReadResultBytes_respected {count : Nat} :
    Respected last (floppyReadResultBytes c count n).2 ∧
      ((floppyReadResultBytes c count n).1 = false ↔
        ∃ msr, (floppyReadResultBytes c count n).2.getLast? = some (.status msr) ∧
          ¬ CanRead msr) := by
  induction count generalizing n last with
  | zero => exact ⟨trivial, nofun, nofun⟩
  | succ count ih =>
    rw [floppyReadResultBytes]
    split
    next can =>
      obtain ⟨respected, failed⟩ := @ih (n + 2) (some (.result (c.data (n + 1))))
      refine ⟨⟨trivial, ⟨_, rfl, (canRead_iff _).2 can⟩, respected⟩, failed.trans ?_⟩
      change _ ↔ ∃ msr, (_ :: _ :: (floppyReadResultBytes c count (n + 2)).2).getLast? = _ ∧ _
      rw [List.getLast?_cons_cons, List.getLast?_cons]
      cases (floppyReadResultBytes c count (n + 2)).2.getLast? <;> simp
    next cannot =>
      refine ⟨⟨trivial, trivial⟩, iff_of_true rfl ⟨_, rfl, ?_⟩⟩
      rwa [canRead_iff]

/-- The accesses of both functions. -/
def FifoRespected (c : FifoClock) (parameters : Option (List U8)) : Prop :=
  (∀ fuel command, Respected none (floppySendCommand c fuel command parameters)) ∧
    ∀ count n, Respected none (floppyReadResultBytes c count n).2 ∧
      ((floppyReadResultBytes c count n).1 = false ↔
        ∃ msr, (floppyReadResultBytes c count n).2.getLast? = some (.status msr) ∧ ¬ CanRead msr)

theorem fifo_respected :
    FifoRespected c parameters ↔ c.ReadyInTime (parameters.getD []).length 1 := by
  constructor
  · rintro ⟨sent, -⟩
    cases parameters with
    | none => trivial
    | some bytes => exact @readyInTime_of_respected c 1 _ bytes 0 fun fuel _ => (sent fuel 0).2
  · intro ready
    refine ⟨fun fuel command => ⟨trivial, ?_⟩, fun count n => floppyReadResultBytes_respected⟩
    cases parameters with
    | none => trivial
    | some bytes => exact sendParameters_respected ready

/-- A controller that is not ready gets its byte at once. -/
theorem fifo_unready : ¬ FifoRespected
    ⟨fun _ => 0, fun _ => 0, 0, fun _ => 0, fun _ _ _ => Nat.le_refl _⟩ (some [0]) := by
  rintro ⟨sent, -⟩
  obtain ⟨-, -, -, allowed, -⟩ := sent 1 0
  obtain ⟨msr, same, can⟩ | waited := allowed
  · cases same
    exact absurd can (show ¬ (0 : U8) &&& 0xC0 = 0x80 by decide)
  · exact absurd waited (by decide)

end ChudOS
