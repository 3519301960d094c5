import ChudOS.LowLevel.Memory

/-!
# The FIFO of the floppy controller

`FLOPPY_Send_Command` and `FLOPPY_Read_Result_Bytes`, with the accesses they make one after the other.
What the controller presents and how far the timer is at each access are parameters.
-/

namespace ChudOS

/-- What the accesses of the driver meet, numbered in their order. -/
structure FifoClock where
  status : Nat → U8
  data : Nat → U8
  /-- `TimerWindow` before the first access. -/
  start : U64
  ticks : Nat → Nat
  monotone : ∀ m n, m ≤ n → ticks m ≤ ticks n

def FifoClock.timerWindow (c : FifoClock) (n : Nat) : U64 := c.start + BitVec.ofNat 64 (c.ticks n)

/-- The accesses to the ports; a parameter comes with the ticks since its wait began. -/
inductive FifoEvent
  | status (msr : U8)
  | command (byte : U8)
  | parameter (byte : U8) (waited : Nat)
  | result (byte : U8)

/-- `inb(MSR) & 0x80 != 0x80 || inb(MSR) & 0x40 == 0x40 && Timestamp-TimerWindow < 1000`: the
comparisons bind tighter than the masks, which are 0 and 1. -/
def keepsWaiting (c : FifoClock) (timestamp : U64) (n : Nat) : Bool :=
  (c.status n &&& 0 != 0) ||
    (c.status (n + 1) &&& 1 != 0 && decide (timestamp - c.timerWindow (n + 2) < 1000))

/-- The wait for one byte and the number of the access after it; none without enough fuel. -/
def waitFifo (c : FifoClock) (timestamp : U64) : Nat → Nat → List FifoEvent × Option Nat
  | 0, _ => ([], none)
  | fuel + 1, n =>
    let polls := [FifoEvent.status (c.status n), .status (c.status (n + 1))]
    if keepsWaiting c timestamp n then
      let (events, ready) := waitFifo c timestamp fuel (n + 3)
      (polls ++ events, ready)
    -- the timer is read only when bit 0 is set
    else (polls, some (if c.status (n + 1) &&& 1 = 0 then n + 2 else n + 3))

def sendParameters (c : FifoClock) (fuel : Nat) : List U8 → Nat → List FifoEvent
  | [], _ => []
  | byte :: bytes, n =>
    match waitFifo c (c.timerWindow n) fuel (n + 1) with
    | (events, none) => events
    | (events, some w) =>
      events ++ .parameter byte (c.ticks w - c.ticks n) :: sendParameters c fuel bytes (w + 1)

/-- Without an array of parameters none are sent. -/
def floppySendCommand (c : FifoClock) (fuel : Nat) (command : U8) (parameters : Option (List U8)) :
    List FifoEvent :=
  .command command :: match parameters with
    | none => []
    | some bytes => sendParameters c fuel bytes 1

def floppyReadResultBytes (c : FifoClock) : Nat → Nat → Bool × List FifoEvent
  | 0, _ => (true, [])
  | count + 1, n =>
    let msr := c.status n
    if msr >>> 7 &&& 1 ≠ 0 ∧ msr >>> 6 &&& 1 ≠ 0 then
      let (ok, events) := floppyReadResultBytes c count (n + 2)
      (ok, .status msr :: .result (c.data (n + 1)) :: events)
    else (false, [.status msr])

/-! ## The handshake -/

/-- RQM is 1 and DIO is 0. -/
def CanSend (msr : U8) : Prop := msr &&& 0xC0 = 0x80

/-- RQM and DIO are 1. -/
def CanRead (msr : U8) : Prop := msr &&& 0xC0 = 0xC0

/-- What may follow an access. -/
def Allowed (last : Option FifoEvent) : FifoEvent → Prop
  | .status _ | .command _ => True
  | .parameter _ waited => (∃ msr, last = some (.status msr) ∧ CanSend msr) ∨ 1000 ≤ waited
  | .result _ => ∃ msr, last = some (.status msr) ∧ CanRead msr

def Respected : Option FifoEvent → List FifoEvent → Prop
  | _, [] => True
  | last, event :: events => Allowed last event ∧ Respected (some event) events

variable {c : FifoClock} {timestamp : U64} {fuel n w : Nat} {last : Option FifoEvent}
  {events events' : List FifoEvent}

theorem respected_append : Respected last (events ++ events') ↔
    Respected last events ∧ Respected (events.getLast?.or last) events' := by
  induction events generalizing last with
  | nil => simp [Respected]
  | cons event events ih =>
    rw [List.cons_append, Respected, Respected, ih, and_assoc, List.getLast?_cons]
    cases events.getLast? <;> rfl

/-- The poll at `n + 3 * j` is the last of a wait. -/
def LastPoll (c : FifoClock) (timestamp : U64) (n j : Nat) : Prop :=
  keepsWaiting c timestamp (n + 3 * j) = false ∧
    ∀ i < j, keepsWaiting c timestamp (n + 3 * i) = true

/-- The access after that poll. -/
def afterPoll (c : FifoClock) (n j : Nat) : Nat :=
  if c.status (n + 3 * j + 1) &&& 1 = 0 then n + 3 * j + 2 else n + 3 * j + 3

theorem waitFifo_respected : Respected last (waitFifo c timestamp fuel n).1 := by
  induction fuel generalizing n last with
  | zero => trivial
  | succ fuel ih =>
    rw [waitFifo]
    split
    · exact ⟨trivial, trivial, ih⟩
    · exact ⟨trivial, trivial, trivial⟩

theorem waitFifo_some (h : (waitFifo c timestamp fuel n).2 = some w) :
    ∃ j < fuel, LastPoll c timestamp n j ∧ w = afterPoll c n j ∧
      (waitFifo c timestamp fuel n).1.getLast? = some (.status (c.status (n + 3 * j + 1))) := by
  induction fuel generalizing n with
  | zero => exact nomatch h
  | succ fuel ih =>
    rw [waitFifo] at h ⊢
    split at h
    next waits =>
      obtain ⟨j, bound, ⟨ends, earlier⟩, rfl, last⟩ := ih h
      have place : n + 3 + 3 * j = n + 3 * (j + 1) := by omega
      rw [place] at ends last
      refine ⟨j + 1, by omega, ⟨ends, fun i hi => ?_⟩, by rw [afterPoll, afterPoll, place], ?_⟩
      · cases i with
        | zero => exact waits
        | succ i =>
          have := earlier i (by omega)
          rwa [show n + 3 + 3 * i = n + 3 * (i + 1) by omega] at this
      · rw [if_pos waits]
        change (_ :: _ :: (waitFifo c timestamp fuel (n + 3)).1).getLast? = _
        rw [List.getLast?_cons_cons, List.getLast?_cons, last]
        rfl
    next ends =>
      rw [if_neg ends]
      cases h
      exact ⟨0, by omega, ⟨by simpa using ends, nofun⟩, rfl, rfl⟩

theorem lastPoll_unique {i j : Nat} (lastPoll : LastPoll c timestamp n i)
    (lastPoll' : LastPoll c timestamp n j) : i = j := by
  obtain less | same | more := Nat.lt_trichotomy i j
  · exact nomatch lastPoll.1.symm.trans (lastPoll'.2 i less)
  · exact same
  · exact nomatch lastPoll'.1.symm.trans (lastPoll.2 j more)

theorem waitFifo_of_last {j : Nat} (lastPoll : LastPoll c timestamp n j) (enough : j < fuel) :
    (waitFifo c timestamp fuel n).2 = some (afterPoll c n j) := by
  induction j generalizing fuel n with
  | zero =>
    obtain ⟨fuel, rfl⟩ := Nat.exists_eq_succ_of_ne_zero (Nat.ne_zero_of_lt enough)
    have ends : keepsWaiting c timestamp n = false := lastPoll.1
    rw [waitFifo, ends]
    rfl
  | succ j ih =>
    obtain ⟨fuel, rfl⟩ := Nat.exists_eq_succ_of_ne_zero (Nat.ne_zero_of_lt enough)
    have waits : keepsWaiting c timestamp n = true := lastPoll.2 0 (Nat.succ_pos j)
    have place i : n + 3 * (i + 1) = n + 3 + 3 * i := by omega
    have rest : LastPoll c timestamp (n + 3) j :=
      ⟨place j ▸ lastPoll.1, fun i hi => place i ▸ lastPoll.2 (i + 1) (Nat.succ_lt_succ hi)⟩
    rw [waitFifo, if_pos waits]
    exact (ih rest (Nat.lt_of_succ_lt_succ enough)).trans (by rw [afterPoll, afterPoll, place])

end ChudOS
