import ChudOS.Boot.Boot2
import ChudOS.LowLevel.PageTables

/-!
# The page tables at boot

The two entries that `boot2.s` makes in the PML4 lead to the first 128 MiB of physical memory, and
nothing else is mapped. The functions use two dwords of the stack, for the return address and for
`eax`.

## Main definitions

* `StackRoom`: these dwords lie in RAM and not among the tables.
* `withoutStack`: RAM without them.
* `Fills`: what a function does to the rest of RAM.
-/

namespace ChudOS.Boot2

variable {s s' : Fill} {distance last : U32} {count : U32 → U32} {n f i a P : Nat}
  {ram : Nat → Nat → U64} {esp : U32}

/-! ## Dwords -/

section Dwords

variable {p q x : U32}

theorem setWidth_append (h x : U32) : ((h ++ x : BitVec (32 + 32)).setWidth 32 : U32) = x := by
  apply BitVec.eq_of_getLsbD_eq
  intro i lt
  rw [BitVec.getLsbD_setWidth, BitVec.getLsbD_append, if_pos lt, decide_eq_true lt, Bool.true_and]

theorem setWidth_shiftRight_append (h x : U32) :
    (((h ++ x : BitVec (32 + 32)) >>> 32).setWidth 32 : U32) = h := by
  apply BitVec.eq_of_getLsbD_eq
  intro i lt
  have above : ¬ 32 + i < 32 := by omega
  rw [BitVec.getLsbD_setWidth, BitVec.getLsbD_ushiftRight, BitVec.getLsbD_append, if_neg above,
    Nat.add_sub_cancel_left, decide_eq_true lt, Bool.true_and]

theorem storeDword_elsewhere (away : ¬ (f = p.toNat / 0x1000 ∧ i = p.toNat % 0x1000 / 8)) :
    storeDword ram p x f i = ram f i := by
  simp only [storeDword]
  by_cases video : videoMemory (p.toNat / 0x1000)
  · rw [if_pos video]
  · rw [if_neg video]
    by_cases frame : f = p.toNat / 0x1000
    · rw [frame, Function.update_self, Function.update_of_ne fun index => away ⟨frame, index⟩]
    · rw [Function.update_of_ne frame]

theorem loadDword_storeDword (real : ¬ videoMemory (p.toNat / 0x1000)) :
    loadDword (storeDword ram p x) p = x := by
  simp only [loadDword, storeDword, if_neg real, Function.update_self]
  by_cases low : p.toNat % 8 < 4
  · rw [if_pos low, if_pos low]
    exact setWidth_append _ x
  · rw [if_neg low, if_neg low]
    exact setWidth_shiftRight_append x _

theorem loadDword_storeDword_of_ne (hp : p.toNat % 4 = 0) (hq : q.toNat % 4 = 0)
    (ne : p.toNat ≠ q.toNat) : loadDword (storeDword ram p x) q = loadDword ram q := by
  by_cases word : q.toNat / 0x1000 = p.toNat / 0x1000 ∧ q.toNat % 0x1000 / 8 = p.toNat % 0x1000 / 8
  · simp only [loadDword, storeDword, word.1, word.2]
    by_cases video : videoMemory (p.toNat / 0x1000)
    · rw [if_pos video]
    · rw [if_neg video, Function.update_self, Function.update_self]
      -- the other half of the quadword
      by_cases low : p.toNat % 8 < 4
      · rw [if_pos low, if_neg (show ¬ q.toNat % 8 < 4 by omega),
          if_neg (show ¬ q.toNat % 8 < 4 by omega)]
        exact setWidth_shiftRight_append _ x
      · rw [if_neg low, if_pos (show q.toNat % 8 < 4 by omega),
          if_pos (show q.toNat % 8 < 4 by omega)]
        exact setWidth_append x _
  · unfold loadDword
    rw [storeDword_elsewhere word]

end Dwords

/-! ## Entries -/

/-- An entry for the address in `eax`. -/
def entry (eax : U32) : U64 := (eax ||| 0b00000011).setWidth 64

/-- Both halves of an entry are written; what was in it before is lost. -/
theorem halves (h x : U32) : (0 : U32) ++ ((h ++ x : BitVec (32 + 32)).setWidth 32 : U32) =
    x.setWidth 64 := by
  rw [setWidth_append]
  apply BitVec.eq_of_getLsbD_eq
  intro i lt
  simp only [BitVec.getLsbD_append, BitVec.getLsbD_setWidth]
  by_cases low : i < 32
  · simp [low, lt]
  · have := x.getLsbD_of_ge i (by omega)
    simp [low, this]

/-- RAM with the entries `x 0`, `x 1`, … from the quadword `a` on. -/
def filled (ram : Nat → Nat → U64) (a n : Nat) (x : Nat → U64) : Nat → Nat → U64 := fun f i =>
  if (a ≤ 512 * f + i ∧ 512 * f + i < a + n) ∧ i < 512 ∧ ¬ videoMemory f then x (512 * f + i - a)
  else ram f i

theorem filled_zero (x : Nat → U64) : filled ram a 0 x = ram := by
  funext f i
  rw [filled, if_neg (by omega)]

theorem filled_succ (x : Nat → U64) :
    filled (filled ram a n x) (a + n) 1 (fun _ => x n) = filled ram a (n + 1) x := by
  funext f i
  by_cases ours : i < 512 ∧ ¬ videoMemory f
  · simp only [filled, eq_true ours, and_true]
    by_cases last : 512 * f + i = a + n
    · have place : 512 * f + i - a = n := by omega
      rw [if_pos (by omega), if_pos (by omega), place]
    · rw [if_neg (by omega)]
      exact if_congr (by omega) rfl rfl
  · simp only [filled, ours, and_false, if_false]

theorem filled_again (x : Nat → U64) : filled (filled ram a n x) a n x = filled ram a n x := by
  funext f i
  simp only [filled]
  split_ifs <;> rfl

theorem filled_inside {x : Nat → U64} (h : a ≤ 512 * f + i ∧ 512 * f + i < a + n) (lt : i < 512)
    (real : ¬ videoMemory f) : filled ram a n x f i = x (512 * f + i - a) :=
  if_pos ⟨h, lt, real⟩

theorem filled_outside {x : Nat → U64} (h : ¬ (a ≤ 512 * f + i ∧ 512 * f + i < a + n)) :
    filled ram a n x f i = ram f i :=
  if_neg fun inside => h inside.1

theorem filled_congr {x y : Nat → U64} (same : ∀ k < n, x k = y k) :
    filled ram a n x = filled ram a n y := by
  funext f i
  simp only [filled]
  split_ifs with inside
  · exact same _ (by omega)
  · rfl

theorem store_entry {edi x : U32} (aligned : edi.toNat % 8 = 0) :
    storeDword (storeDword ram edi x) (edi + 4) 0 =
      filled ram (edi.toNat / 8) 1 fun _ => x.setWidth 64 := by
  have bound := edi.isLt
  have four : (4 : U32).toNat = 4 := rfl
  have next : (edi + 4).toNat = edi.toNat + 4 := by
    rw [BitVec.toNat_add, four]
    omega
  have frame : (edi.toNat + 4) / 0x1000 = edi.toNat / 0x1000 := by omega
  have index : (edi.toNat + 4) % 0x1000 / 8 = edi.toNat % 0x1000 / 8 := by omega
  have low : ¬ (edi.toNat + 4) % 8 < 4 := by omega
  have first : edi.toNat % 8 < 4 := by omega
  funext f i
  simp only [storeDword, next, frame, index, if_pos first, if_neg low]
  by_cases video : videoMemory (edi.toNat / 0x1000)
  · simp only [if_pos video, filled]
    rw [if_neg]
    rintro ⟨⟨lower, upper⟩, lt, ram⟩
    have same : f = edi.toNat / 0x1000 := by omega
    exact ram (same ▸ video)
  · simp only [if_neg video, Function.update_self, Function.update_idem, halves, filled]
    by_cases hf : f = edi.toNat / 0x1000
    · rw [hf, Function.update_self]
      by_cases hi : i = edi.toNat % 0x1000 / 8
      · rw [hi, Function.update_self, if_pos ⟨by omega, by omega, video⟩]
      · rw [Function.update_of_ne hi, if_neg (by omega)]
    · rw [Function.update_of_ne hf, if_neg (by omega)]

/-! ## The stack -/

/-- The two dwords below `esp` lie in RAM, outside the tables. -/
structure StackRoom (esp : U32) (P : Nat) : Prop where
  aligned : esp.toNat % 4 = 0
  room : 8 ≤ esp.toNat
  real : esp.toNat ≤ 0xA0000 ∨ 0xC0008 ≤ esp.toNat
  apart : esp.toNat ≤ 0x1000 * P ∨ 0x1000 * (P + 0x43) + 8 ≤ esp.toNat

/-- The quadword holds a part of them. -/
def onStack (esp : U32) (f i : Nat) : Prop :=
  esp.toNat < 8 * (512 * f + i) + 16 ∧ 8 * (512 * f + i) < esp.toNat

instance (f i : Nat) : Decidable (onStack esp f i) := inferInstanceAs (Decidable (_ ∧ _))

def withoutStack (esp : U32) (ram : Nat → Nat → U64) : Nat → Nat → U64 := fun f i =>
  if onStack esp f i then 0 else ram f i

theorem withoutStack_storeDword {p x : U32} (below : p.toNat < esp.toNat)
    (above : esp.toNat ≤ p.toNat + 8) :
    withoutStack esp (storeDword ram p x) = withoutStack esp ram := by
  funext f i
  unfold withoutStack
  split_ifs with inside
  · rfl
  · refine storeDword_elsewhere ?_
    rintro ⟨rfl, rfl⟩
    exact inside ⟨by omega, by omega⟩

namespace StackRoom

variable (room : StackRoom esp P)

include room

theorem toNat_next : (esp - 4).toNat = esp.toNat - 4 := by
  have := room.room
  have := esp.isLt
  have four : (4 : U32).toNat = 4 := rfl
  rw [BitVec.toNat_sub, four]
  omega

theorem toNat_eax : (esp - 4 - 4).toNat = esp.toNat - 8 := by
  have := room.room
  have := esp.isLt
  have four : (4 : U32).toNat = 4 := rfl
  rw [BitVec.toNat_sub, room.toNat_next, four]
  omega

theorem withoutStack_filled {x : Nat → U64} (first : 512 * P ≤ a) (last : a + n ≤ 512 * (P + 0x43)) :
    withoutStack esp (filled ram a n x) = filled (withoutStack esp ram) a n x := by
  have := room.apart
  funext f i
  by_cases inside : onStack esp f i
  · obtain ⟨lower, upper⟩ := inside
    rw [filled_outside (by omega)]
    simp only [withoutStack, onStack, lower, upper, and_self, if_true]
  · simp only [withoutStack, filled, if_neg inside]

theorem loadDword_filled {p : U32} {x : Nat → U64} (below : p.toNat < esp.toNat)
    (above : esp.toNat ≤ p.toNat + 8) (first : 512 * P ≤ a) (last : a + n ≤ 512 * (P + 0x43)) :
    loadDword (filled ram a n x) p = loadDword ram p := by
  have := room.apart
  unfold loadDword
  rw [filled_outside (by omega)]

end StackRoom

/-! ## The loops -/

/-- From `s` to `s'` the `n` quadwords from `edi` on are filled, and the stack is as before but for
the dword of `eax`. -/
structure Filled (esp : U32) (s s' : Fill) (n : Nat) (x : Nat → U64) : Prop where
  stack : s'.esp = s.esp
  next : loadDword s'.ram (esp - 4) = loadDword s.ram (esp - 4)
  ram : withoutStack esp s'.ram = filled (withoutStack esp s.ram) (s.edi.toNat / 8) n x

/-- The tables from `edi` on have room for `n` entries. -/
structure EntryRoom (esp : U32) (P n : Nat) (s : Fill) : Prop where
  room : StackRoom esp P
  fits : P + 0x43 ≤ 2 ^ 20
  stack : s.esp = esp - 4
  aligned : s.edi.toNat % 8 = 0
  first : 0x1000 * P ≤ s.edi.toNat
  last : s.edi.toNat + 8 * n ≤ 0x1000 * (P + 0x43)

/-- `eax` comes back from the stack. -/
theorem EntryRoom.put (h : EntryRoom esp P 1 s) : s.put.edi = s.edi ∧ s.put.eax = s.eax ∧
    s.put.ecx = s.ecx ∧ Filled esp s s.put 1 fun _ => entry s.eax := by
  have top := h.room.toNat_next
  have slot := h.room.toNat_eax
  have room := h.room.room
  have aligned := h.room.aligned
  have first := h.first
  have last := h.last
  have slot' : (s.esp - 4).toNat = esp.toNat - 8 := by rw [h.stack, slot]
  have ram : s.put.ram = filled (storeDword s.ram (s.esp - 4) s.eax) (s.edi.toNat / 8) 1
      fun _ => entry s.eax := store_entry h.aligned
  have real : ¬ videoMemory ((s.esp - 4).toNat / 0x1000) := by
    have := h.room.real
    rintro ⟨lower, upper⟩
    omega
  refine ⟨rfl, ?_, rfl, BitVec.sub_add_cancel s.esp 4, ?_, ?_⟩
  · change loadDword s.put.ram (s.esp - 4) = s.eax
    rw [ram, h.room.loadDword_filled (by omega) (by omega) (by omega) (by omega)]
    exact loadDword_storeDword real
  · rw [ram, h.room.loadDword_filled (by omega) (by omega) (by omega) (by omega)]
    exact loadDword_storeDword_of_ne (by omega) (by omega) (by omega)
  · rw [ram, h.room.withoutStack_filled (by omega) (by omega),
      withoutStack_storeDword (by omega) (by omega)]

/-- The registers and the RAM after some rounds. -/
theorem EntryRoom.rounds (h : EntryRoom esp P n s) :
    ((Fill.round distance count)^[n] s).edi = s.edi + BitVec.ofNat 32 (8 * n) ∧
      ((Fill.round distance count)^[n] s).eax = s.eax + distance * BitVec.ofNat 32 n ∧
      ((Fill.round distance count)^[n] s).ecx = count^[n] s.ecx ∧
      Filled esp s ((Fill.round distance count)^[n] s) n
        fun k => entry (s.eax + distance * BitVec.ofNat 32 k) := by
  induction n with
  | zero => simpa using ⟨rfl, rfl, (filled_zero _).symm⟩
  | succ n ih =>
    have last := h.last
    obtain ⟨edi, eax, ecx, stack, next, ram⟩ := ih { h with last := by omega }
    have place : (s.edi + BitVec.ofNat 32 (8 * n)).toNat = s.edi.toNat + 8 * n := by
      have := h.fits
      rw [BitVec.toNat_add, BitVec.toNat_ofNat]
      omega
    have room : EntryRoom esp P 1 ((Fill.round distance count)^[n] s) :=
      ⟨h.room, h.fits, stack.trans h.stack, by rw [edi, place]; have := h.aligned; omega,
        by rw [edi, place]; have := h.first; omega, by rw [edi, place]; omega⟩
    obtain ⟨edi', eax', ecx', stack', next', ram'⟩ := room.put
    simp only [Function.iterate_succ_apply']
    refine ⟨?_, ?_, ?_, stack'.trans stack, next'.trans next, ?_⟩
    · change ((Fill.round distance count)^[n] s).put.edi + 8 = _
      rw [edi', edi, Nat.mul_succ, BitVec.ofNat_add, BitVec.add_assoc]
      rfl
    · change ((Fill.round distance count)^[n] s).put.eax + distance = _
      rw [eax', eax, BitVec.ofNat_add, BitVec.mul_add, BitVec.add_assoc]
      congr 2
      exact (BitVec.mul_one distance).symm
    · change count ((Fill.round distance count)^[n] s).put.ecx = _
      rw [ecx', ecx]
    · refine ram'.trans ?_
      rw [ram, edi, eax, place, show (s.edi.toNat + 8 * n) / 8 = s.edi.toNat / 8 + n by omega]
      exact filled_succ _

/-- A loop that counts up from zero. -/
theorem EntryRoom.loop_up {rounds : Nat} (h : EntryRoom esp P n s) (le : n ≤ rounds)
    (small : n < 2 ^ 32) (zero : s.ecx = 0) :
    ∃ s', Fill.loop distance (BitVec.ofNat 32 n) (· + 1) rounds s = some s' ∧
      Filled esp s s' n fun k => entry (s.eax + distance * BitVec.ofNat 32 k) := by
  have counter (j : Nat) (le : j ≤ n) :
      ((Fill.round distance (· + 1))^[j] s).ecx = BitVec.ofNat 32 j := by
    have last := h.last
    have upto : EntryRoom esp P j s := { h with last := by omega }
    rw [upto.rounds.2.2.1, zero]
    clear le last upto
    induction j with
    | zero => rfl
    | succ j ih =>
      rw [Function.iterate_succ_apply', ih, BitVec.ofNat_add]
      rfl
  refine ⟨_, Loop.run_of_le le (Loop.run_iterate (fun j lt => ?_) (counter n le_rfl)),
    h.rounds.2.2.2⟩
  rw [counter j lt.le]
  intro same
  have := congrArg BitVec.toNat same
  rw [BitVec.toNat_ofNat, BitVec.toNat_ofNat] at this
  omega

/-- A loop of one round, after its entry has been written already. -/
theorem EntryRoom.loop_once {rounds : Nat} (h : EntryRoom esp P 1 s) (some_round : 0 < rounds)
    (one : s.ecx = 1) : ∃ s', Fill.loop distance 0 (· - 1) rounds s.put = some s' ∧
      Filled esp s s' 1 fun _ => entry s.eax := by
  obtain ⟨edi, eax, ecx, stack, next, ram⟩ := h.put
  have again : EntryRoom esp P 1 s.put := ⟨h.room, h.fits, stack.trans h.stack, h.aligned, h.first, h.last⟩
  obtain ⟨-, -, -, stack', next', ram'⟩ := again.put
  have counter : (Fill.round distance (· - 1) s.put).ecx = 0 := by
    change s.ecx - 1 = 0
    rw [one]
    rfl
  refine ⟨Fill.round distance (· - 1) s.put, Loop.run_of_le some_round
    (Loop.run_iterate (n := 1) (fun j lt => ?_) counter), stack'.trans stack, next'.trans next, ?_⟩
  · obtain rfl : j = 0 := by omega
    change ¬ s.ecx = 0
    rw [one]
    decide
  · refine ram'.trans ?_
    rw [ram, edi, eax]
    exact filled_again _

/-! ## The functions -/

/-- What the function does to RAM, called with its return address just below `esp`. -/
def Fills (esp : U32) (function : Fill → Option Fill)
    (change : (Nat → Nat → U64) → Nat → Nat → U64) : Prop :=
  ∀ s, s.esp = esp - 4 → ∃ s', function s = some s' ∧ s'.esp = s.esp ∧
    loadDword s'.ram (esp - 4) = loadDword s.ram (esp - 4) ∧
    withoutStack esp s'.ram = change (withoutStack esp s.ram)

/-- It comes back, with the stack as it was. -/
theorem Fills.call {function : Fill → Option Fill} {change : (Nat → Nat → U64) → Nat → Nat → U64}
    (h : Fills esp function change) (room : StackRoom esp P) (next : U32) (top : s.esp = esp) :
    ∃ s', s.call next function = some s' ∧ s'.esp = esp ∧
      withoutStack esp s'.ram = change (withoutStack esp s.ram) := by
  have place := room.toNat_next
  have bound := room.room
  have real : ¬ videoMemory ((esp - 4).toNat / 0x1000) := by
    have := room.real
    rintro ⟨lower, upper⟩
    omega
  obtain ⟨s', run, stack, kept, ram⟩ := h (s.push next) (by rw [← top]; rfl)
  have pushed : (s.push next).ram = storeDword s.ram (esp - 4) next := by rw [← top]; rfl
  have returns : loadDword s'.ram s'.esp = next := by
    rw [stack, show (s.push next).esp = esp - 4 by rw [← top]; rfl, kept, pushed,
      loadDword_storeDword real]
  refine ⟨{ s' with esp := s'.esp + 4 }, ?_, ?_, ?_⟩
  · rw [Fill.call, run, Option.bind_eq_bind, Option.bind_some, if_pos returns]
  · change s'.esp + 4 = esp
    rw [stack]
    change s.esp - 4 + 4 = esp
    rw [top, BitVec.sub_add_cancel]
  · rw [ram, pushed, withoutStack_storeDword (by omega) (by omega)]

section

variable {l : Labels} {rounds : Nat}

theorem entry_eq {x : U32} (frame : x.toNat = 0x1000 * f) : entry x = physOf f ||| 0b11 := by
  have wide : x.setWidth 64 = physOf f := by
    apply BitVec.eq_of_toNat_eq
    have := x.isLt
    rw [BitVec.toNat_setWidth, physOf, BitVec.toNat_ofNat, frame]
    omega
  rw [entry, BitVec.setWidth_or, wide]
  rfl

theorem toNat_step {x : U32} {m : Nat} (frame : x.toNat = 0x1000 * a) (fits : 0x1000 * (a + m) < 2 ^ 32) :
    (x + 0x1000 * BitVec.ofNat 32 m).toNat = 0x1000 * (a + m) := by
  have page : (0x1000 : U32).toNat = 0x1000 := rfl
  rw [BitVec.toNat_add, BitVec.toNat_mul, BitVec.toNat_ofNat, page, frame]
  omega

/-- The loader is at the start of memory, and the labels follow each other. -/
structure Placed (esp : U32) (l : Labels) (P : Nat) : Prop where
  room : StackRoom esp P
  fits : P + 0x43 ≤ 2 ^ 20
  pml4 : l.pml4Table.toNat = 0x1000 * P

namespace Placed

variable (h : Placed esp l P)

include h

theorem pdpt : l.pdptKernel.toNat = 0x1000 * (P + 1) :=
  toNat_step (m := 1) h.pml4 (by have := h.fits; omega)

theorem pd : l.pdTableKernel.toNat = 0x1000 * (P + 2) :=
  toNat_step (m := 1) h.pdpt (by have := h.fits; omega)

theorem pt : l.pt.toNat = 0x1000 * (P + 3) :=
  toNat_step (m := 1) h.pd (by have := h.fits; omega)

theorem fillPt (enough : 32768 ≤ rounds) : Fills esp (fillPt rounds l) fun ram =>
    filled ram (512 * (P + 3)) 32768 fun k => physOf k ||| 0b11 := by
  intro s top
  have place := h.pt
  obtain ⟨s', run, stack, next, ram⟩ := @EntryRoom.loop_up
    { s with edi := l.pt, eax := 0, ecx := 0 } 0x1000 32768 P esp rounds
    ⟨h.room, h.fits, top, show l.pt.toNat % 8 = 0 by omega, show _ ≤ l.pt.toNat by omega,
      show l.pt.toNat + _ ≤ _ by omega⟩ enough (by decide) rfl
  have pages : ∀ k < 32768, entry (0 + 0x1000 * BitVec.ofNat 32 k) = physOf k ||| 0b11 := by
    intro k lt
    have step := @toNat_step 0 0 k rfl (by omega)
    rw [Nat.zero_add] at step
    exact entry_eq step
  refine ⟨s', run, stack, next, ram.trans ?_⟩
  rw [place, show 0x1000 * (P + 3) / 8 = 512 * (P + 3) by omega]
  exact filled_congr pages

theorem fillPd (enough : 64 ≤ rounds) : Fills esp (fillPd rounds l) fun ram =>
    filled ram (512 * (P + 2)) 64 fun k => physOf (P + 3 + k) ||| 0b11 := by
  intro s top
  have place := h.pd
  have fits := h.fits
  obtain ⟨s', run, stack, next, ram⟩ := @EntryRoom.loop_up
    { s with edi := l.pdTableKernel, eax := l.pt, ecx := 0 } 4096 64 P esp rounds
    ⟨h.room, h.fits, top, show l.pdTableKernel.toNat % 8 = 0 by omega,
      show _ ≤ l.pdTableKernel.toNat by omega, show l.pdTableKernel.toNat + _ ≤ _ by omega⟩ enough
    (by decide) rfl
  refine ⟨s', run, stack, next, ram.trans ?_⟩
  rw [place, show 0x1000 * (P + 2) / 8 = 512 * (P + 2) by omega]
  exact filled_congr fun k lt => entry_eq (toNat_step h.pt (by omega))

/-- A table of which one entry is filled. -/
theorem fillOne {edi eax : U32} (enough : 0 < rounds) (place : edi.toNat = 8 * a)
    (first : 512 * P ≤ a) (last : a < 512 * (P + 0x43)) (frame : eax.toNat = 0x1000 * f) :
    Fills esp (fun s => Fill.loop distance 0 (· - 1) rounds
        (Fill.put { s with edi := edi, eax := eax, ecx := 1 }))
      fun ram => filled ram a 1 fun _ => physOf f ||| 0b11 := by
  intro s top
  obtain ⟨s', run, stack, next, ram⟩ := @EntryRoom.loop_once
    { s with edi := edi, eax := eax, ecx := 1 } distance P esp rounds
    ⟨h.room, h.fits, top, show edi.toNat % 8 = 0 by omega, show _ ≤ edi.toNat by omega,
      show edi.toNat + _ ≤ _ by omega⟩ enough rfl
  refine ⟨s', run, stack, next, ram.trans ?_⟩
  rw [place, Nat.mul_div_cancel_left a (by decide), entry_eq frame]

theorem fillPdpt (enough : 0 < rounds) : Fills esp (fillPdpt rounds l) fun ram =>
    filled ram (512 * (P + 1)) 1 fun _ => physOf (P + 2) ||| 0b11 :=
  h.fillOne enough (h.pdpt.trans (by omega)) (by omega) (by omega) h.pd

theorem fillPml4L (enough : 0 < rounds) : Fills esp (fillPml4L rounds l) fun ram =>
    filled ram (512 * P) 1 fun _ => physOf (P + 1) ||| 0b11 :=
  h.fillOne enough (h.pml4.trans (by omega)) (by omega) (by omega) h.pdpt

theorem fillPml4H (enough : 0 < rounds) : Fills esp (fillPml4H rounds l) fun ram =>
    filled ram (512 * P + 256) 1 fun _ => physOf (P + 1) ||| 0b11 := by
  have high : (l.pml4Table + 2048).toNat = 8 * (512 * P + 256) := by
    have fits := h.fits
    have offset : (2048 : U32).toNat = 2048 := rfl
    rw [BitVec.toNat_add, offset, h.pml4]
    omega
  exact h.fillOne enough high (by omega) (by omega) h.pdpt

end Placed

/-- What the five functions leave, when the first table is the frame `P`. -/
def tablesAt (ram : Nat → Nat → U64) (P : Nat) : Nat → Nat → U64 :=
  let ram := filled ram (512 * (P + 3)) 32768 fun k => physOf k ||| 0b11
  let ram := filled ram (512 * (P + 2)) 64 fun k => physOf (P + 3 + k) ||| 0b11
  let ram := filled ram (512 * (P + 1)) 1 fun _ => physOf (P + 2) ||| 0b11
  let ram := filled ram (512 * P) 1 fun _ => physOf (P + 1) ||| 0b11
  filled ram (512 * P + 256) 1 fun _ => physOf (P + 1) ||| 0b11

theorem Placed.fillTables (h : Placed esp l P) (enough : 32768 ≤ rounds) (next : Nat → U32)
    (top : s.esp = esp) : ∃ s', fillTables rounds l next s = some s' ∧ s'.esp = esp ∧
      withoutStack esp s'.ram = tablesAt (withoutStack esp s.ram) P := by
  have once : 0 < rounds := by omega
  have lower : 64 ≤ rounds := by omega
  obtain ⟨s₁, run₁, top₁, ram₁⟩ := (h.fillPt enough).call h.room (next 0) top
  obtain ⟨s₂, run₂, top₂, ram₂⟩ := (h.fillPd lower).call h.room (next 1) top₁
  obtain ⟨s₃, run₃, top₃, ram₃⟩ := (h.fillPdpt once).call h.room (next 2) top₂
  obtain ⟨s₄, run₄, top₄, ram₄⟩ := (h.fillPml4L once).call h.room (next 3) top₃
  obtain ⟨s₅, run₅, top₅, ram₅⟩ := (h.fillPml4H once).call h.room (next 4) top₄
  refine ⟨s₅, ?_, top₅, ?_⟩
  · unfold Boot2.fillTables
    simp only [run₁, run₂, run₃, run₄, run₅, Option.bind_eq_bind, Option.bind_some]
  · rw [ram₅, ram₄, ram₃, ram₂, ram₁]
    rfl

/-- The four kinds of table, by index, with an entry for the lower half or without it. What the
video memory answers is not known. -/
structure BootTables (lower : Bool) (ram : Nat → Nat → U64) (P : Nat) : Prop where
  pml4 : ∀ i < 512, ram P i =
    if (i = 0 ∧ lower = true) ∨ i = 256 then physOf (P + 1) ||| 0b11 else 0
  pdpt : ∀ i < 512, ram (P + 1) i = if i = 0 then physOf (P + 2) ||| 0b11 else 0
  pd : ∀ i < 512, ram (P + 2) i = if i < 64 then physOf (P + 3 + i) ||| 0b11 else 0
  pt : ∀ j < 64, ¬ videoMemory (P + 3 + j) → ∀ i < 512,
    ram (P + 3 + j) i = physOf (512 * j + i) ||| 0b11

/-- With nothing in the first three tables before. -/
theorem tablesAt_boot (low : P + 3 ≤ 0xA0) (zero : ∀ f, P ≤ f → f < P + 3 → ∀ i < 512, ram f i = 0) :
    BootTables true (tablesAt ram P) P := by
  have real (f : Nat) (lt : f < P + 3) : ¬ videoMemory f := fun video => by
    have := video.1
    omega
  refine ⟨fun i lt => ?_, fun i lt => ?_, fun i lt => ?_, fun j hj real i lt => ?_⟩
  · unfold tablesAt
    by_cases high : i = 256
    · rw [filled_inside (by omega) lt (real P (by omega)), if_pos (.inr high)]
    · rw [filled_outside (by omega)]
      by_cases first : i = 0
      · rw [filled_inside (by omega) lt (real P (by omega)), if_pos (.inl ⟨first, rfl⟩)]
      · rw [filled_outside (by omega), filled_outside (by omega), filled_outside (by omega),
          filled_outside (by omega), if_neg (by simp [first, high]), zero P (by omega) (by omega) i lt]
  · unfold tablesAt
    rw [filled_outside (by omega), filled_outside (by omega)]
    by_cases first : i = 0
    · rw [filled_inside (by omega) lt (real _ (by omega)), if_pos first]
    · rw [filled_outside (by omega), filled_outside (by omega), filled_outside (by omega),
        if_neg first, zero _ (by omega) (by omega) i lt]
  · unfold tablesAt
    rw [filled_outside (by omega), filled_outside (by omega), filled_outside (by omega)]
    by_cases present : i < 64
    · rw [filled_inside (by omega) lt (real _ (by omega)), if_pos present, Nat.add_sub_cancel_left]
    · rw [filled_outside (by omega), filled_outside (by omega), if_neg present,
        zero _ (by omega) (by omega) i lt]
  · unfold tablesAt
    rw [filled_outside (by omega), filled_outside (by omega), filled_outside (by omega),
      filled_outside (by omega), filled_inside (by omega) lt real,
      show 512 * (P + 3 + j) + i - 512 * (P + 3) = 512 * j + i by omega]

theorem link_present {f : Nat} (lt : f < 2 ^ 40) : link (physOf f ||| 0b11) = some f := by
  have bits : (physOf f ||| 0b11 : U64) = physOf f ||| (0b10 : U8).setWidth 64 ||| 1 := by
    rw [BitVec.or_assoc]
    rfl
  rw [bits, link_tableEntry lt]

/-- The CPU finds the first 128 MiB at the start of a half, and nothing else. -/
theorem BootTables.walk {m : Memory} {lower : Bool} (tables : BootTables lower m.ram P)
    (fits : P + 0x43 ≤ 2 ^ 20) (v : U64) :
    (v.toNat % 2 ^ 47 < 2 ^ 27 → (v.toNat / 2 ^ 47 % 2 = 0 → lower = true) →
      ¬ videoMemory (P + 3 + v.toNat % 2 ^ 47 / 2 ^ 21) →
      walkEntry m P v = some (physOf (v.toNat % 2 ^ 47 / 0x1000) ||| 0b11)) ∧
      (2 ^ 27 ≤ v.toNat % 2 ^ 47 ∨ v.toNat / 2 ^ 47 % 2 = 0 ∧ lower = false →
        walkEntry m P v = none) := by
  obtain ⟨i, j, l, d, -, -, hi, hj, hl, hd⟩ := walk_indices v
  have i_eq : i.val = v.toNat / 2 ^ 39 % 512 := by rw [← hi]; exact index_toNat v 39
  have j_eq : j.val = v.toNat / 2 ^ 30 % 512 := by rw [← hj]; exact index_toNat v 30
  have l_eq : l.val = v.toNat / 2 ^ 21 % 512 := by rw [← hl]; exact index_toNat v 21
  have d_eq : d.val = v.toNat / 2 ^ 12 % 512 := by rw [← hd]; exact index_toNat v 12
  have first := tables.pml4 i i.isLt
  have second := tables.pdpt j j.isLt
  have third := tables.pd l l.isLt
  simp only [walkEntry, pageWalk, hi, hj, hl, hd, first]
  by_cases top : (i.val = 0 ∧ lower = true) ∨ i.val = 256
  · rw [if_pos top, link_present (by omega), Option.bind_eq_bind, Option.bind_some, second]
    have known : ¬ (v.toNat / 2 ^ 47 % 2 = 0 ∧ lower = false) := by
      rintro ⟨half, dropped⟩
      simp only [dropped, Bool.false_eq_true, and_false, false_or] at top
      omega
    by_cases middle : j.val = 0
    · rw [if_pos middle, link_present (by omega), Option.bind_some, third]
      by_cases present : l.val < 64
      · rw [if_pos present, link_present (by omega), Option.bind_some]
        refine ⟨fun _ _ real => ?_, fun above => by have := above.resolve_right known; omega⟩
        have table : v.toNat % 2 ^ 47 / 2 ^ 21 = l.val := by omega
        have page : v.toNat % 2 ^ 47 / 0x1000 = 512 * l.val + d.val := by omega
        rw [table] at real
        rw [page, ← tables.pt l.val present real d d.isLt]
        rfl
      · rw [if_neg present, link_zero]
        exact ⟨fun below => by omega, fun _ => rfl⟩
    · rw [if_neg middle, link_zero]
      exact ⟨fun below => by omega, fun _ => rfl⟩
  · rw [if_neg top, link_zero]
    refine ⟨fun below half => ?_, fun _ => rfl⟩
    refine absurd ?_ top
    by_cases low : v.toNat / 2 ^ 47 % 2 = 0
    · exact .inl ⟨by omega, half low⟩
    · exact .inr (by omega)

theorem tablesAt_elsewhere (away : ¬ (P ≤ f ∧ f < P + 0x43)) (lt : i < 512) :
    tablesAt ram P f i = ram f i := by
  unfold tablesAt
  rw [filled_outside (by omega), filled_outside (by omega), filled_outside (by omega),
    filled_outside (by omega), filled_outside (by omega)]

theorem StackRoom.withoutStack_table (room : StackRoom esp P) (first : P ≤ f) (last : f < P + 0x43)
    (lt : i < 512) : withoutStack esp ram f i = ram f i := by
  have := room.apart
  refine if_neg ?_
  rintro ⟨lower, upper⟩
  omega

theorem BootTables.congr {lower : Bool} {ram' : Nat → Nat → U64} (tables : BootTables lower ram P)
    (same : ∀ f, P ≤ f → f < P + 0x43 → ∀ i < 512, ram f i = ram' f i) : BootTables lower ram' P where
  pml4 i lt := by rw [← same _ (by omega) (by omega) i lt, tables.pml4 i lt]
  pdpt i lt := by rw [← same _ (by omega) (by omega) i lt, tables.pdpt i lt]
  pd i lt := by rw [← same _ (by omega) (by omega) i lt, tables.pd i lt]
  pt j hj real i lt := by rw [← same _ (by omega) (by omega) i lt, tables.pt j hj real i lt]

/-- The tables, with nothing in the first three of them before, and what is written beside them. -/
theorem Placed.bootTables (h : Placed s.esp l P) (low : P + 3 ≤ 0xA0)
    (zero : ∀ f, P ≤ f → f < P + 3 → ∀ i < 512, s.ram f i = 0) (enough : 32768 ≤ rounds)
    (next : Nat → U32) : ∃ s', Boot2.fillTables rounds l next s = some s' ∧ s'.esp = s.esp ∧
      BootTables true s'.ram P ∧ ∀ f, ¬ (P ≤ f ∧ f < P + 0x43) → ∀ i < 512, ¬ onStack s.esp f i →
        s'.ram f i = s.ram f i := by
  obtain ⟨s', run, top, ram⟩ := h.fillTables enough next rfl
  have tables : BootTables true (withoutStack s.esp s'.ram) P := by
    rw [ram]
    refine tablesAt_boot low fun f first last i lt => ?_
    rw [h.room.withoutStack_table first (by omega) lt, zero f first last i lt]
  refine ⟨s', run, top, tables.congr fun f first last i lt =>
    h.room.withoutStack_table first last lt, fun f away i lt free => ?_⟩
  have same := (congrFun (congrFun ram f) i).trans (tablesAt_elsewhere away lt)
  rwa [withoutStack, withoutStack, if_neg free, if_neg free] at same

end

/-- `start_paging64` ends with page tables that show the first 128 MiB of physical memory at the
start of both halves, for the kernel only, and nothing else; only the tables themselves and the two
dwords of the stack have been written. A table in the video memory is the exception. -/
theorem boot_map {l : Labels} {rounds : Nat} (place : l.pml4Table.toNat = 0x1000 * P)
    (low : P + 3 ≤ 0xA0) (room : StackRoom s.esp P)
    (zero : ∀ f, P ≤ f → f < P + 3 → ∀ i < 512, s.ram f i = 0) (enough : 32768 ≤ rounds)
    (next : Nat → U32) :
    ∃ s', fillTables rounds l next s = some s' ∧ s'.esp = s.esp ∧
      (∀ f, ¬ (P ≤ f ∧ f < P + 0x43) → ∀ i < 512, ¬ onStack s.esp f i → s'.ram f i = s.ram f i) ∧
      ∀ m : Memory, m.ram = s'.ram → ∀ v : U64,
        (v.toNat % 2 ^ 47 < 2 ^ 27 → ¬ videoMemory (P + 3 + v.toNat % 2 ^ 47 / 2 ^ 21) →
          walkEntry m P v = some (physOf (v.toNat % 2 ^ 47 / 0x1000) ||| 0b11)) ∧
        (2 ^ 27 ≤ v.toNat % 2 ^ 47 → walkEntry m P v = none) := by
  obtain ⟨s', run, top, tables, elsewhere⟩ :=
    Placed.bootTables ⟨room, by omega, place⟩ low zero enough next
  refine ⟨s', run, top, elsewhere, fun m same v => ?_⟩
  obtain ⟨shown, hidden⟩ := BootTables.walk (m := m) (same ▸ tables) (by omega) v
  exact ⟨fun below real => shown below (fun _ => rfl) real, fun above => hidden (.inl above)⟩

/-- The registers of the loader, which has its stack below `0x7000`, over empty memory. -/
def loaderRegisters : Fill := ⟨0, 0, 0, 0x7000, fun _ _ => 0⟩

theorem loaderRegisters_room : StackRoom loaderRegisters.esp 0x61 :=
  ⟨by decide, by decide, .inl (by decide), .inl (by decide)⟩

/-- The image at `0x60000` has less than a page before its tables. -/
theorem boot_map_image :
    ∃ s', fillTables 32768 ⟨0x61000⟩ (fun i => 0x600C0 + 5 * BitVec.ofNat 32 i) loaderRegisters =
        some s' ∧ s'.esp = loaderRegisters.esp ∧
      (∀ f, ¬ (0x61 ≤ f ∧ f < 0x61 + 0x43) → ∀ i < 512, ¬ onStack loaderRegisters.esp f i →
        s'.ram f i = loaderRegisters.ram f i) ∧
      ∀ m : Memory, m.ram = s'.ram → ∀ v : U64,
        (v.toNat % 2 ^ 47 < 2 ^ 27 → ¬ videoMemory (0x61 + 3 + v.toNat % 2 ^ 47 / 2 ^ 21) →
          walkEntry m 0x61 v = some (physOf (v.toNat % 2 ^ 47 / 0x1000) ||| 0b11)) ∧
        (2 ^ 27 ≤ v.toNat % 2 ^ 47 → walkEntry m 0x61 v = none) :=
  boot_map rfl (by decide) loaderRegisters_room (fun _ _ _ _ _ => rfl) le_rfl _

end ChudOS.Boot2
