import ChudOS.ContextSwitch
import ChudOS.Devices.Keyboard
import ChudOS.Library.Transition
import Mathlib.Data.List.GetD

/-!
# The typed line

What `enter` delivers, against the line that the printable keys make. A backspace on an empty line
and a tab near the end of the buffer fall through to the case of the other characters, and are stored
as such. A tab fills the four bytes behind the next one, but not the next one. The tables of keys end
before the last key.

## Main definitions

* `editLine` — what a printable key does to a line of at most 256 characters.
* `typing` — keyboard interrupts, beside the line.
* `Told` — what is delivered is the line.
* `Served` — what is expected of a key.
* `Straight` — a key is not one of those that go wrong.
-/

namespace ChudOS.Keyboard

open Transition

def editLine (line : List U8) (c : U8) : List U8 :=
  if c = 8 then line.dropLast
  else if c = 9 then if line.length + 4 ≤ 256 then line ++ List.replicate 4 32 else line
  else if line.length < 256 then line ++ [c] else line

/-- What the interrupt handler reads from the controller, and the registers of the current task. -/
structure Scan where
  status : U8
  scancode : U8
  regs : InterruptRegisters

namespace Scan

variable (scan : Scan)

def release : Bool := decide (0x81 ≤ scan.scancode) && decide (scan.scancode ≤ 0xD8)

def keycode : U8 := if scan.release then scan.scancode - 0x80 else scan.scancode

/-- The key is looked up in the tables. -/
def looksUp : Prop :=
  scan.status &&& 1 ≠ 0 ∧ scan.keycode ∉ [keyCodeLShift, keyCodeRShift, keyCodeCapslock] ∧
    0 < scan.keycode ∧ scan.keycode ≤ keyCodeF12 ∧ scan.release = false

/-- The character of a printable key. -/
def printed (k : Kernel) : Option U8 :=
  if scan.status &&& 1 ≠ 0 ∧ (0 < scan.keycode ∧ scan.keycode ≤ keyCodeF12 ∧ scan.release = false) ∧
      keycodeIsPrintable scan.keycode = true then some (keyCodeToChar k scan.keycode)
  else none

/-- `enter`, while a task waits for input. -/
def delivers (k : Kernel) : Prop :=
  scan.status &&& 1 ≠ 0 ∧ scan.keycode = keyCodeEnter ∧ scan.release = false ∧
    getWaitingProgram (k.setRegisters k.curPid scan.regs) ≠ 512

instance (k : Kernel) : Decidable (scan.delivers k) :=
  inferInstanceAs (Decidable (_ ∧ _ ∧ _ ∧ _))

end Scan

structure Typing where
  kernel : Kernel
  line : List U8

/-- The keyboard is as it was. -/
structure SameKeyboard (k k' : Kernel) : Prop where
  buffer : k'.keyBuffer = k.keyBuffer
  pos : k'.keyBufferPos = k.keyBufferPos
  upper : k'.upper = k.upper
  capslock : k'.capslock = k.capslock

/-- Between two keyboard interrupts the kernel does anything but touch the keyboard. -/
def typing : LTS Typing Scan where
  init x := x.kernel.keyBufferPos = 0 ∧ (∀ i, x.kernel.keyBuffer i = 0) ∧ x.line = []
  step x scan y := ∃ k regs, SameKeyboard x.kernel k ∧
    handleKeyboardInterrupt k scan.regs scan.status scan.scancode = some (y.kernel, regs) ∧
    y.line = match scan.printed k with
      | some c => editLine x.line c
      | none => if scan.delivers k then [] else x.line

/-- What `enter` copies for a task that asked for so many bytes. -/
def copied (k : Kernel) (rcx : U64) : List U8 :=
  (List.range (min k.keyBufferPos rcx.toNat)).map k.keyBuffer

/-- Whoever waits for input, the first bytes of the line are copied into its buffer. -/
structure Told (x : Typing) : Prop where
  bytes : ∀ rcx : U64, copied x.kernel rcx = x.line.take rcx.toNat
  call : ∀ k, SameKeyboard x.kernel k → ∀ pid, ∃ rest, deliverLine k pid =
    (copyOut (k.setCr3 (k.taskManager pid).basePML4).mem (k.taskManager pid).savedRegisters.rbx
      (x.line.take (k.taskManager pid).savedRegisters.rcx.toNat)).bind rest

/-- The position is in the buffer or at its end, and no key writes or delivers a byte behind it. -/
structure InBounds (k : Kernel) : Prop where
  pos : k.keyBufferPos ≤ 256
  write : ∀ k', k'.keyBufferPos = k.keyBufferPos → ∀ c i, 256 ≤ i →
    (typeKey k' c).keyBuffer i = k'.keyBuffer i
  read : ∀ rcx, (copied k rcx).length ≤ 256

structure Served (scan : Scan) (y : Typing) : Prop where
  tables : scan.looksUp → scan.keycode.toNat < keyCodeLookupTable.length ∧
    scan.keycode.toNat < keyCodeLookupTableShift.length
  told : Told y

/-- The key is not the last one, no backspace on an empty line, and a tab finds a space in the next
byte or the buffer full. -/
structure Straight (x : Typing) (scan : Scan) : Prop where
  known : ¬ (scan.status &&& 1 ≠ 0 ∧ scan.keycode = keyCodeF12 ∧ scan.release = false)
  printed : ∀ c, scan.printed x.kernel = some c → (c = 8 → 0 < x.kernel.keyBufferPos) ∧
    (c = 9 → x.kernel.keyBufferPos < 252 ∧ x.kernel.keyBuffer x.kernel.keyBufferPos = 32 ∨
      x.kernel.keyBufferPos = 256)

variable {k k' : Kernel} {x y : Typing} {scan : Scan} {line : List U8} {c : U8} {i pid : Nat}

/-! ## The line in the buffer -/

/-- The line is what the buffer holds in front of the position. -/
def Typed (k : Kernel) (line : List U8) : Prop :=
  (List.range k.keyBufferPos).map k.keyBuffer = line

theorem Typed.length (typed : Typed k line) : line.length = k.keyBufferPos := by
  rw [← typed, List.length_map, List.length_range]

theorem copied_eq (rcx : U64) :
    copied k rcx = ((List.range k.keyBufferPos).map k.keyBuffer).take rcx.toNat := by
  rw [copied, ← List.map_take, List.take_range, Nat.min_comm]

theorem typed_iff (short : k.keyBufferPos ≤ 256) (fits : line.length ≤ 256) :
    Typed k line ↔ ∀ rcx : U64, copied k rcx = line.take rcx.toNat := by
  constructor
  · intro typed rcx
    rw [copied_eq, typed]
  · intro same
    have all := same (BitVec.ofNat 64 256)
    have width : (BitVec.ofNat 64 256).toNat = 256 := rfl
    rw [copied_eq, width, List.take_of_length_le fits, List.take_of_length_le] at all
    · exact all
    · rw [List.length_map, List.length_range]
      exact short

theorem length_editLine (fits : line.length ≤ 256) : (editLine line c).length ≤ 256 := by
  rw [editLine]
  split_ifs with back tab room room
  · rw [List.length_dropLast]
    omega
  · rw [List.length_append, List.length_replicate]
    exact room
  · exact fits
  · rw [List.length_append, List.length_singleton]
    exact room
  · exact fits

/-- More characters behind the line. -/
theorem typed_append {more : List U8} (typed : Typed k line)
    (pos : k'.keyBufferPos = k.keyBufferPos + more.length)
    (keep : ∀ i < k.keyBufferPos, k'.keyBuffer i = k.keyBuffer i) : Typed k' (line ++ more) ↔
      ∀ i < more.length, k'.keyBuffer (k.keyBufferPos + i) = more.getD i 0 := by
  have old : (List.range k.keyBufferPos).map k'.keyBuffer = line := by
    rw [← typed]
    exact List.map_congr_left fun i mem => keep i (List.mem_range.mp mem)
  rw [Typed, pos, List.range_add, List.map_append, old, List.append_right_inj, List.map_map]
  constructor
  · intro same i lt
    rw [List.getD_eq_getElem _ _ lt, ← List.getElem_of_eq same (by simpa using lt)]
    simp
  · intro same
    refine List.ext_getElem (by simp) fun i _ lt => ?_
    rw [← List.getD_eq_getElem _ 0 lt, ← same i lt]
    simp

/-- What a wrong length of the line excludes. -/
theorem not_typed_of_length (length : line.length ≠ k.keyBufferPos) : ¬ Typed k line :=
  fun typed => length typed.length

section TypeKey

variable (short : k.keyBufferPos ≤ 256) (typed : Typed k line)
include typed

theorem typed_back : Typed (typeKey k 8) (editLine line 8) ↔ 0 < k.keyBufferPos := by
  have length := typed.length
  have last : editLine line 8 = line.dropLast := if_pos rfl
  rw [last]
  by_cases some : 0 < k.keyBufferPos
  · refine iff_of_true ?_ some
    obtain ⟨p, pos⟩ : ∃ p, k.keyBufferPos = p + 1 := ⟨k.keyBufferPos - 1, by omega⟩
    rw [typeKey, if_pos ⟨rfl, some⟩, Typed, ← typed, pos]
    dsimp only
    rw [List.range_succ, List.map_append, List.map_singleton, List.dropLast_concat,
      Nat.add_sub_cancel]
  · refine iff_of_false (not_typed_of_length ?_) some
    have stored : (typeKey k 8).keyBufferPos = k.keyBufferPos + 1 := by
      rw [typeKey, if_neg (fun both => some both.2), if_neg (by simp), if_pos (by omega)]
    rw [stored, List.length_dropLast]
    omega

include short

theorem typed_tab : Typed (typeKey k 9) (editLine line 9) ↔
    k.keyBufferPos < 252 ∧ k.keyBuffer k.keyBufferPos = 32 ∨ k.keyBufferPos = 256 := by
  have length := typed.length
  have other : ¬ ((9 : U8) = 8 ∧ 0 < k.keyBufferPos) := fun both => absurd both.1 (by decide)
  have line_eq : editLine line 9 =
      if line.length + 4 ≤ 256 then line ++ List.replicate 4 32 else line := rfl
  rw [line_eq, typeKey, if_neg other]
  by_cases room : k.keyBufferPos < 252
  · have full : ¬ k.keyBufferPos = 256 := by omega
    rw [if_pos ⟨rfl, room⟩, if_pos (by omega), typed_append typed (by simp)]
    · simp only [List.length_replicate, room, full, true_and, or_false]
      constructor
      · intro spaces
        have first := spaces 0 (by decide)
        rwa [Nat.add_zero, if_neg (by omega)] at first
      · intro first i lt
        have space : (List.replicate 4 (32 : U8)).getD i 0 = 32 := by
          rw [List.getD_eq_getElem _ _ (by simpa using lt), List.getElem_replicate]
        rw [space]
        by_cases here : i = 0
        · rw [here, if_neg (by omega)]
          exact first
        · rw [if_pos (by omega)]
    · intro i lt
      dsimp only
      rw [if_neg (by omega)]
  · rw [if_neg (fun both => room both.2)]
    by_cases full : k.keyBufferPos = 256
    · rw [if_neg (by omega), if_neg (by omega)]
      exact iff_of_true typed (.inr full)
    · have below : k.keyBufferPos < 256 := by omega
      refine iff_of_false (not_typed_of_length ?_) (by omega)
      rw [if_pos below]
      dsimp only
      split_ifs
      · rw [List.length_append, List.length_replicate]
        omega
      · omega

theorem typed_other (back : c ≠ 8) (tab : c ≠ 9) : Typed (typeKey k c) (editLine line c) := by
  have length := typed.length
  rw [editLine, if_neg back, if_neg tab, typeKey, if_neg (fun both => back both.1),
    if_neg (fun both => tab both.1)]
  by_cases room : k.keyBufferPos < 256
  · rw [if_pos room, if_pos (by omega), typed_append typed rfl]
    · intro i lt
      obtain rfl : i = 0 := by simpa using lt
      exact Function.update_self ..
    · intro i lt
      exact Function.update_of_ne (by omega) ..
  · rw [if_neg room, if_neg (by omega)]
    exact typed

/-- A printable key changes the line as it should if and only if it is not one of those that go
wrong. -/
theorem typed_typeKey : Typed (typeKey k c) (editLine line c) ↔ (c = 8 → 0 < k.keyBufferPos) ∧
    (c = 9 → k.keyBufferPos < 252 ∧ k.keyBuffer k.keyBufferPos = 32 ∨ k.keyBufferPos = 256) := by
  have apart : (8 : U8) ≠ 9 := by decide
  by_cases back : c = 8
  · subst back
    rw [typed_back typed]
    exact ⟨fun some => ⟨fun _ => some, fun tab => absurd tab apart⟩, fun both => both.1 rfl⟩
  by_cases tab : c = 9
  · subst tab
    rw [typed_tab short typed]
    exact ⟨fun space => ⟨fun eq => absurd eq back, fun _ => space⟩, fun both => both.2 rfl⟩
  · exact iff_of_true (typed_other short typed back tab)
      ⟨fun eq => absurd eq back, fun eq => absurd eq tab⟩

end TypeKey

/-! ## The interrupt -/

theorem typeKey_pos (short : k.keyBufferPos ≤ 256) : (typeKey k c).keyBufferPos ≤ 256 := by
  rw [typeKey]
  split_ifs <;> grind

theorem typeKey_write (short : k.keyBufferPos ≤ 256) (behind : 256 ≤ i) :
    (typeKey k c).keyBuffer i = k.keyBuffer i := by
  rw [typeKey]
  split_ifs with back tab room
  · rfl
  · exact if_neg (by omega)
  · exact Function.update_of_ne (by omega) ..
  · rfl

theorem inBounds_of_pos (short : k.keyBufferPos ≤ 256) : InBounds k where
  pos := short
  write k' same c i behind := typeKey_write (same ▸ short) behind
  read rcx := by
    rw [copied, List.length_map, List.length_range]
    exact (Nat.min_le_left ..).trans short

/-- The last key is the only one that is not in the tables. -/
theorem tables_iff : (scan.looksUp → scan.keycode.toNat < keyCodeLookupTable.length ∧
    scan.keycode.toNat < keyCodeLookupTableShift.length) ↔
      ¬ (scan.status &&& 1 ≠ 0 ∧ scan.keycode = keyCodeF12 ∧ scan.release = false) := by
  have lengths : keyCodeLookupTable.length = 85 ∧ keyCodeLookupTableShift.length = 85 := by decide
  rw [lengths.1, lengths.2, and_self]
  constructor
  · rintro inside ⟨ready, last, pressed⟩
    have below := inside ⟨ready, by rw [last]; decide, by rw [last]; decide,
      by rw [last]; decide, pressed⟩
    rw [last] at below
    exact absurd below (by decide)
  · rintro known ⟨ready, -, -, le, pressed⟩
    have other : scan.keycode.toNat ≠ 85 := fun last =>
      known ⟨ready, BitVec.eq_of_toNat_eq last, pressed⟩
    have bound : scan.keycode.toNat ≤ 85 := BitVec.le_def.mp le
    omega

/-- The keys that change the case have no character. -/
theorem not_printable (key : scan.keycode ∈ [keyCodeLShift, keyCodeRShift, keyCodeCapslock]) :
    keycodeIsPrintable scan.keycode = false ∧ scan.keycode ≠ keyCodeEnter := by
  have all : ∀ key ∈ [keyCodeLShift, keyCodeRShift, keyCodeCapslock],
      keycodeIsPrintable key = false ∧ key ≠ keyCodeEnter := by decide
  exact all _ key

/-- Only a printable key and `enter` touch the buffer. -/
theorem handleKeyboardInterrupt_cases {regs : InterruptRegisters}
    (handled : handleKeyboardInterrupt k scan.regs scan.status scan.scancode = some (k', regs)) :
    (∃ c, scan.printed k = some c ∧ k' = typeKey (k.setRegisters k.curPid scan.regs) c) ∨
      scan.printed k = none ∧ scan.delivers k ∧ k'.keyBufferPos = 0 ∨
      scan.printed k = none ∧ ¬ scan.delivers k ∧ k'.keyBuffer = k.keyBuffer ∧
        k'.keyBufferPos = k.keyBufferPos := by
  unfold handleKeyboardInterrupt at handled
  dsimp only at handled
  by_cases empty : scan.status &&& 1 = 0
  · rw [if_pos empty] at handled
    cases handled
    exact .inr (.inr ⟨if_neg fun some => some.1 empty, fun some => some.1 empty, rfl, rfl⟩)
  rw [if_neg empty] at handled
  obtain ⟨k₁, key, same⟩ := Option.bind_eq_some_iff.mp handled
  obtain ⟨rfl, -⟩ := Prod.mk.inj (Option.some.inj same)
  change handleKey _ scan.keycode scan.release = some k₁ at key
  have quiet (case : scan.keycode ∈ [keyCodeLShift, keyCodeRShift, keyCodeCapslock]) :
      scan.printed k = none ∧ ¬ scan.delivers k := by
    obtain ⟨none, other⟩ := not_printable case
    exact ⟨if_neg fun some => absurd (some.2.2.symm.trans none) nofun, fun some => other some.2.1⟩
  unfold handleKey at key
  split_ifs at key with shift capslock pressed printable entered
  · cases key
    obtain ⟨none, other⟩ := quiet (by rcases shift with left | right <;> simp [*])
    exact .inr (.inr ⟨none, other, rfl, rfl⟩)
  · cases key
    obtain ⟨none, other⟩ := quiet (by simp [capslock])
    exact .inr (.inr ⟨none, other, rfl, rfl⟩)
  · cases key
    exact .inl ⟨_, if_pos ⟨empty, pressed, printable⟩, rfl⟩
  · have none : scan.printed k = none := if_neg fun some => printable some.2.2
    refine .inr (.inl ⟨none, ⟨empty, entered.1, pressed.2.2, entered.2⟩, ?_⟩)
    obtain ⟨m, -, same⟩ := Option.bind_eq_some_iff.mp key
    cases same
    rfl
  · cases key
    refine .inr (.inr ⟨if_neg fun some => printable some.2.2, fun some => ?_, rfl, rfl⟩)
    exact entered ⟨some.2.1, some.2.2.2⟩
  · cases key
    refine .inr (.inr ⟨if_neg fun some => pressed some.2.1, fun some => pressed ?_, rfl, rfl⟩)
    rw [some.2.1]
    exact ⟨by decide, by decide, some.2.2.1⟩

/-! ## Runs -/

theorem step_inBounds (inside : InBounds x.kernel) (fits : x.line.length ≤ 256)
    (step : typing.step x scan y) : InBounds y.kernel ∧ y.line.length ≤ 256 := by
  obtain ⟨k, regs, same, handled, line⟩ := step
  have short : k.keyBufferPos ≤ 256 := same.pos ▸ inside.pos
  rcases handleKeyboardInterrupt_cases handled with
    ⟨c, printed, typed⟩ | ⟨none, delivers, pos⟩ | ⟨none, other, -, pos⟩
  · rw [printed] at line
    rw [line, typed]
    exact ⟨inBounds_of_pos (typeKey_pos short), length_editLine fits⟩
  · rw [none] at line
    dsimp only at line
    rw [if_pos delivers] at line
    exact ⟨inBounds_of_pos (by omega), by rw [line]; exact Nat.zero_le _⟩
  · rw [none] at line
    dsimp only at line
    rw [if_neg other] at line
    exact ⟨inBounds_of_pos (by omega), by rw [line]; exact fits⟩

/-- The position never leaves the buffer, whatever is typed. -/
theorem inBounds_of_reachable {ok : Typing → Scan → Prop} (reached : Reachable typing ok x) :
    InBounds x.kernel ∧ x.line.length ≤ 256 := by
  refine reached.invariant (P := fun x => InBounds x.kernel ∧ x.line.length ≤ 256) ?_ ?_
  · rintro x ⟨pos, -, line⟩
    exact ⟨inBounds_of_pos (by omega), by rw [line]; exact Nat.zero_le _⟩
  · rintro x scan y ⟨inside, fits⟩ - step
    exact step_inBounds inside fits step

theorem told_iff (short : x.kernel.keyBufferPos ≤ 256) (fits : x.line.length ≤ 256) :
    Told x ↔ Typed x.kernel x.line := by
  rw [typed_iff short fits]
  refine ⟨Told.bytes, fun bytes => ⟨bytes, fun k same pid => ?_⟩⟩
  have copy : copied k (k.taskManager pid).savedRegisters.rcx =
      x.line.take (k.taskManager pid).savedRegisters.rcx.toNat := by
    rw [← bytes, copied, copied, same.pos, same.buffer]
  rw [← copy]
  exact ⟨_, rfl⟩

/-- What is printed depends on the keyboard only. -/
theorem printed_congr (same : SameKeyboard k k') : scan.printed k' = scan.printed k := by
  have char : keyCodeToChar k' scan.keycode = keyCodeToChar k scan.keycode := by
    rw [keyCodeToChar, keyCodeToChar, same.upper, same.capslock]
  rw [Scan.printed, Scan.printed, char]

theorem step_typed_iff (inside : InBounds x.kernel) (typed : Typed x.kernel x.line)
    (step : typing.step x scan y) : Typed y.kernel y.line ↔
      ∀ c, scan.printed x.kernel = some c → (c = 8 → 0 < x.kernel.keyBufferPos) ∧
        (c = 9 → x.kernel.keyBufferPos < 252 ∧ x.kernel.keyBuffer x.kernel.keyBufferPos = 32 ∨
          x.kernel.keyBufferPos = 256) := by
  obtain ⟨k, regs, same, handled, line⟩ := step
  have typed' : Typed k x.line := by rwa [Typed, same.pos, same.buffer]
  rw [← printed_congr same, ← same.pos, ← same.buffer]
  rcases handleKeyboardInterrupt_cases handled with
    ⟨c, printed, key⟩ | ⟨none, delivers, pos⟩ | ⟨none, other, buffer, pos⟩
  · rw [printed] at line ⊢
    have short : k.keyBufferPos ≤ 256 := same.pos ▸ inside.pos
    have edited := @typed_typeKey (k.setRegisters k.curPid scan.regs) x.line c short typed'
    rw [key, line, edited]
    constructor
    · rintro right _ ⟨⟩
      exact right
    · intro right
      exact right c rfl
  · rw [none] at line ⊢
    dsimp only at line
    rw [if_pos delivers] at line
    refine iff_of_true ?_ nofun
    rw [Typed, pos, line]
    rfl
  · rw [none] at line ⊢
    dsimp only at line
    rw [if_neg other] at line
    refine iff_of_true ?_ nofun
    rw [Typed, pos, buffer, line]
    exact typed'

theorem served_iff (inside : InBounds x.kernel) (typed : Typed x.kernel x.line)
    (inside' : InBounds y.kernel) (fits' : y.line.length ≤ 256) (step : typing.step x scan y) :
    Served scan y ↔ Straight x scan := by
  constructor
  · rintro ⟨tables, told⟩
    exact ⟨tables_iff.mp tables,
      (step_typed_iff inside typed step).mp ((told_iff inside'.pos fits').mp told)⟩
  · rintro ⟨known, printed⟩
    exact ⟨tables_iff.mpr known,
      (told_iff inside'.pos fits').mpr ((step_typed_iff inside typed step).mpr printed)⟩

theorem typed_of_reachable (reached : Reachable typing Straight x) : Typed x.kernel x.line := by
  induction reached with
  | init start =>
    obtain ⟨pos, -, line⟩ := start
    rw [Typed, pos, line]
    rfl
  | step before straight step ih =>
    exact (step_typed_iff (inBounds_of_reachable before).1 ih step).mpr straight.printed

/--
While no key went wrong, the position is in the buffer or at its end, and `enter` delivers the line.
This is so after the next key as well, which is looked up in the tables only, if and only if it does
not go wrong.
-/
theorem keyboard_line_iff (reached : Reachable typing Straight x) (step : typing.step x scan y) :
    InBounds x.kernel ∧ Told x ∧ InBounds y.kernel ∧ (Served scan y ↔ Straight x scan) := by
  obtain ⟨inside, fits⟩ := inBounds_of_reachable reached
  have typed := typed_of_reachable reached
  obtain ⟨inside', fits'⟩ := step_inBounds inside fits step
  exact ⟨inside, (told_iff inside.pos fits).mpr typed, inside',
    served_iff inside typed inside' fits' step⟩

/-- Nothing was typed yet. -/
def untyped : Typing := ⟨idleKernel, []⟩

def press (scancode : U8) : Scan := ⟨1, scancode, zeroRegisters⟩

theorem step_press (scancode : U8) {k : Kernel} {regs : InterruptRegisters}
    (handled : handleKeyboardInterrupt idleKernel zeroRegisters 1 scancode = some (k, regs)) :
    ∃ line, typing.step untyped (press scancode) ⟨k, line⟩ :=
  ⟨_, idleKernel, regs, ⟨rfl, rfl, rfl, rfl⟩, handled, rfl⟩

/-- The key `a` was typed. -/
def lettered : Typing :=
  ⟨((handleKeyboardInterrupt idleKernel zeroRegisters 1 0x1e).getD (idleKernel, zeroRegisters)).1,
    [0x61]⟩

theorem press_straight {x : Typing} {scancode : U8} (letter : U8)
    (printed : (press scancode).printed x.kernel = some letter) (other : scancode ≠ keyCodeF12)
    (pressed : (press scancode).release = false) (back : letter = 8 → 0 < x.kernel.keyBufferPos)
    (tab : letter ≠ 9) : Straight x (press scancode) := by
  refine ⟨fun last => other ?_, fun c at_c => ?_⟩
  · have code := last.2.1
    rw [Scan.keycode, pressed] at code
    exact code
  · obtain rfl := Option.some.inj (printed.symm.trans at_c)
    exact ⟨back, fun same => absurd same tab⟩

theorem lettered_reachable : Reachable typing Straight lettered :=
  .step (s := untyped) (l := press 0x1e) (.init ⟨rfl, fun _ => rfl, rfl⟩)
    (press_straight 0x61 rfl (by decide) rfl (fun same => absurd same (by decide)) (by decide))
    ⟨idleKernel, zeroRegisters, ⟨rfl, rfl, rfl, rfl⟩, rfl, rfl⟩

/-- A backspace takes it back. -/
theorem backspace_served : ∃ y, typing.step lettered (press 0x0e) y ∧ y.line = [] ∧ Told lettered ∧
    Served (press 0x0e) y := by
  have step : typing.step lettered (press 0x0e)
      ⟨((handleKeyboardInterrupt lettered.kernel zeroRegisters 1 0x0e).getD
        (idleKernel, zeroRegisters)).1, []⟩ :=
    ⟨lettered.kernel, zeroRegisters, ⟨rfl, rfl, rfl, rfl⟩, rfl, rfl⟩
  obtain ⟨-, told, -, served⟩ := keyboard_line_iff lettered_reachable step
  exact ⟨_, step, rfl, told, served.mpr
    (press_straight 8 rfl (by decide) rfl (fun _ => Nat.one_pos) (by decide))⟩

/-- A backspace on the empty line is delivered as a character. -/
theorem backspace_delivered : ∃ y, typing.step untyped (press 0x0e) y ∧ y.line = [] ∧
    copied y.kernel 1 = [8] ∧ ¬ Served (press 0x0e) y := by
  obtain ⟨line, step⟩ := @step_press 0x0e _ _ rfl
  have empty : line = [] := by
    obtain ⟨k, regs, same, -, line⟩ := step
    rw [printed_congr same] at line
    exact line
  subst empty
  exact ⟨_, step, rfl, rfl, fun served => absurd (served.told.bytes 1) (by decide)⟩

end ChudOS.Keyboard
